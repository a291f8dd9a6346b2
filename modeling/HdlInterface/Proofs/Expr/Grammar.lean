import Mathlib.Algebra.Group.Int.Defs
import HdlInterface.Proofs.Expr.Written

/-!
# The grammar of expressions

Which objects stand for an expression, and for which. An object is read exactly if it is in the
grammar; other fields than those of the grammar make no difference; and every expression is written
within the grammar and read back (`Expr.grammar`).
-/

namespace HdlInterface

/-- The field is absent or null. -/
def Fields.Lacks (m : Fields) (key : String) : Prop :=
  m.value? key = none ∨ m.value? key = some .null

/-! ## Literals -/

namespace Literal

/-- A type, and a value that fits it. The width of a bit vector fits 32 bits. -/
inductive InGrammar (m : Fields) : Prop
  | part {s : String} (hkind : m.value? "type" = some (.string "ID"))
      (hvalue : m.value? "value" = some (.string s))
  | parts {parts : List String} (hkind : m.value? "type" = some (.string "ID"))
      (hvalue : m.value? "value" = some (.array (parts.map .string)))
  | integer {n : Integer} (hkind : m.value? "type" = some (.string "INT"))
      (hvalue : m.value? "value" = some (.number (.integer n)))
      (hrange : -2 ^ 63 ≤ n.value ∧ n.value ≤ 2 ^ 63 - 1) (hbits : m.Lacks "bits")
  | vector {n k : Integer} (hkind : m.value? "type" = some (.string "INT"))
      (hvalue : m.value? "value" = some (.number (.integer n)))
      (hrange : -2 ^ 63 ≤ n.value ∧ n.value ≤ 2 ^ 63 - 1)
      (hbits : m.value? "bits" = some (.number (.integer k)))
      (hwidth : 0 ≤ k.value ∧ k.value ≤ 2 ^ 32 - 1)
  | string {s : String} (hkind : m.value? "type" = some (.string "STRING"))
      (hvalue : m.value? "value" = some (.string s))

/-- Both have the same type and value, and the same width if the type is one of integers. -/
structure Agree (m n : Fields) : Prop where
  kind : m.value? "type" = n.value? "type"
  value : m.value? "value" = n.value? "value"
  bits : m.value? "type" = some (.string "INT") → m.present? "bits" = n.present? "bits"

theorem exists_ofInt64_eq {n : Integer} (h : -2 ^ 63 ≤ n.value ∧ n.value ≤ 2 ^ 63 - 1) :
    ∃ w, n = .ofInt64 w := by
  have hword : (Number.integer n).toInt64? = some (Int64.ofInt n.value) :=
    if_pos (by omega)
  exact ⟨_, Number.integer.inj (Number.toInt64?_eq_some_iff.1 hword)⟩

theorem exists_ofNat32_eq {n : Integer} (h : 0 ≤ n.value ∧ n.value ≤ 2 ^ 32 - 1) :
    ∃ w, n = .ofNat32 w := by
  have hword : (Number.integer n).toUInt32? = some (UInt32.ofNat n.value.toNat) :=
    if_pos (by omega)
  exact ⟨_, Number.integer.inj (Number.toUInt32?_eq_some_iff.1 hword)⟩

theorem inGrammar_of_describedBy {m : Fields} {l : Literal} (h : l.DescribedBy m) :
    InGrammar m := by
  match l, h with
  | name parts, ⟨hkind, hvalue⟩ =>
      rcases hvalue with hvalue | ⟨part, -, hvalue⟩
      · exact .parts hkind hvalue
      · exact .part hkind hvalue
  | integer value bits, ⟨hkind, hvalue, hbits⟩ =>
      have lower := Int64.le_toInt value
      have upper := Int64.toInt_lt value
      have hrange : -2 ^ 63 ≤ (Integer.ofInt64 value).value ∧
          (Integer.ofInt64 value).value ≤ 2 ^ 63 - 1 :=
        ⟨lower, by simp only [Integer.ofInt64]; omega⟩
      cases bits with
      | none => exact .integer hkind hvalue hrange (Fields.present?_eq_none_iff.1 hbits)
      | some k =>
          have hk := k.toNat_lt
          have hwidth : 0 ≤ (Integer.ofNat32 k).value ∧ (Integer.ofNat32 k).value ≤ 2 ^ 32 - 1 := by
            simp only [Integer.ofNat32]
            omega
          exact .vector hkind hvalue hrange (Fields.present?_eq_some_iff.1 hbits).1 hwidth
  | string text, ⟨hkind, hvalue⟩ => exact .string hkind hvalue

theorem exists_describedBy_of_inGrammar {m : Fields} (h : InGrammar m) :
    ∃ l : Literal, l.DescribedBy m := by
  cases h with
  | part hkind hvalue => exact ⟨name [_], hkind, .inr ⟨_, rfl, hvalue⟩⟩
  | parts hkind hvalue => exact ⟨name _, hkind, .inl hvalue⟩
  | integer hkind hvalue hrange hbits =>
      obtain ⟨value, rfl⟩ := exists_ofInt64_eq hrange
      exact ⟨integer value none, hkind, hvalue, Fields.present?_eq_none_iff.2 hbits⟩
  | vector hkind hvalue hrange hbits hwidth =>
      obtain ⟨value, rfl⟩ := exists_ofInt64_eq hrange
      obtain ⟨k, rfl⟩ := exists_ofNat32_eq hwidth
      exact ⟨integer value (some k), hkind, hvalue,
        Fields.present?_eq_some_iff.2 ⟨hbits, Json.noConfusion⟩⟩
  | string hkind hvalue => exact ⟨string _, hkind, hvalue⟩

theorem ofFields_congr {m n : Fields} (h : Agree m n) : ofFields m = ofFields n := by
  have hkind : m.text "type" = n.text "type" := by
    simp only [Fields.text, Fields.require, h.kind]
  have hvalue : m.require "value" = n.require "value" := by
    simp only [Fields.require, h.value]
  rw [ofFields, ofFields, hkind, hvalue]
  cases hn : n.text "type" with
  | error e => rfl
  | ok kind =>
      rw [ok_bind, ok_bind]
      by_cases hint : kind = "INT"
      · have hbits := h.bits (h.kind.trans (hint ▸ Fields.text_eq_ok_iff.1 hn))
        simp only [hbits]
      · -- the width is looked at for no other type
        refine bind_congr fun value => ?_
        split
        next => rfl
        next => exact absurd rfl hint
        next => rfl
        next => rfl

end Literal

/-! ## Expressions -/

namespace Expr

/-- A literal; or no literal but an operator with its first operand, and with a list of operands or
a second operand. All other fields are free. -/
inductive InGrammar : Fields → Prop
  | literal {m n : Fields} (hliteral : m.value? "literal" = some (.object n))
      (hn : Literal.InGrammar n) : InGrammar m
  | binary {m op x y : Fields} {operator : String} (hliteral : m.Lacks "literal")
      (hop : m.value? "binOperator" = some (.object op))
      (hoperator : op.value? "operator" = some (.string operator))
      (hfirst : op.value? "op0" = some (.object x)) (hx : InGrammar x)
      (hoperands : op.value? "operands" = none)
      (hsecond : op.value? "op1" = some (.object y)) (hy : InGrammar y) : InGrammar m
  | nary {m op x : Fields} {operator : String} {operands : List Fields}
      (hliteral : m.Lacks "literal") (hop : m.value? "binOperator" = some (.object op))
      (hoperator : op.value? "operator" = some (.string operator))
      (hfirst : op.value? "op0" = some (.object x)) (hx : InGrammar x)
      (hoperands : op.value? "operands" = some (.array (operands.map .object)))
      (hitems : ∀ n ∈ operands, InGrammar n) : InGrammar m

/-- The fields of the grammar hold the same in both, at every level. -/
inductive Agree : Fields → Fields → Prop
  | literal {m m' n n' : Fields} (hm : m.value? "literal" = some (.object n))
      (hm' : m'.value? "literal" = some (.object n')) (hn : Literal.Agree n n') : Agree m m'
  | binary {m m' op op' x x' y y' : Fields} (hm : m.Lacks "literal") (hm' : m'.Lacks "literal")
      (hop : m.value? "binOperator" = some (.object op))
      (hop' : m'.value? "binOperator" = some (.object op'))
      (hoperator : op.value? "operator" = op'.value? "operator")
      (hfirst : op.value? "op0" = some (.object x)) (hfirst' : op'.value? "op0" = some (.object x'))
      (hx : Agree x x')
      (hoperands : op.value? "operands" = none) (hoperands' : op'.value? "operands" = none)
      (hsecond : op.value? "op1" = some (.object y))
      (hsecond' : op'.value? "op1" = some (.object y')) (hy : Agree y y') : Agree m m'
  | nary {m m' op op' x x' : Fields} {operands : List (Fields × Fields)} (hm : m.Lacks "literal")
      (hm' : m'.Lacks "literal") (hop : m.value? "binOperator" = some (.object op))
      (hop' : m'.value? "binOperator" = some (.object op'))
      (hoperator : op.value? "operator" = op'.value? "operator")
      (hfirst : op.value? "op0" = some (.object x)) (hfirst' : op'.value? "op0" = some (.object x'))
      (hx : Agree x x')
      (hoperands : op.value? "operands" = some (.array (operands.map fun p => .object p.1)))
      (hoperands' : op'.value? "operands" = some (.array (operands.map fun p => .object p.2)))
      (hitems : ∀ p ∈ operands, Agree p.1 p.2) : Agree m m'

/-! ### Acceptance -/

theorem present?_object {m n : Fields} {key : String} (h : m.value? key = some (.object n)) :
    m.present? key = some (.object n) :=
  Fields.present?_eq_some_iff.2 ⟨h, Json.noConfusion⟩

mutual

theorem inGrammar_of_describedBy {m : Fields} : (e : Expr) → e.DescribedBy m → InGrammar m
  | literal _, ⟨_, hn, hl⟩ =>
      .literal (Fields.value?_of_present? hn) (Literal.inGrammar_of_describedBy hl)
  | binary _ x y, ⟨hliteral, _, hop, ho, ⟨_, hn, hx⟩, hoperands, _, hk, hy⟩ =>
      .binary (Fields.present?_eq_none_iff.1 hliteral) (Fields.value?_of_present? hop) ho hn
        (inGrammar_of_describedBy x hx) hoperands hk (inGrammar_of_describedBy y hy)
  | nary _ x xs, ⟨hliteral, _, hop, ho, ⟨_, hn, hx⟩, items, hitems, hxs⟩ => by
      obtain ⟨operands, rfl, hoperands⟩ := inGrammar_of_itemsDescribedBy xs hxs
      exact .nary (Fields.present?_eq_none_iff.1 hliteral) (Fields.value?_of_present? hop) ho hn
        (inGrammar_of_describedBy x hx) hitems hoperands

theorem inGrammar_of_itemsDescribedBy {items : List Json} : (xs : List Expr) →
    ItemsDescribedBy items xs → ∃ operands : List Fields, items = operands.map .object ∧
      ∀ n ∈ operands, InGrammar n
  | [], h => ⟨[], h, nofun⟩
  | x :: xs, ⟨n, rest, hitems, hx, hxs⟩ => by
      obtain ⟨operands, rfl, hoperands⟩ := inGrammar_of_itemsDescribedBy xs hxs
      refine ⟨n :: operands, hitems, ?_⟩
      rw [List.forall_mem_cons]
      exact ⟨inGrammar_of_describedBy x hx, hoperands⟩

end

theorem exists_describedBy_of_inGrammar {m : Fields} (h : InGrammar m) :
    ∃ e : Expr, e.DescribedBy m := by
  induction h with
  | literal hliteral hn =>
      obtain ⟨l, hl⟩ := Literal.exists_describedBy_of_inGrammar hn
      exact ⟨literal l, _, present?_object hliteral, hl⟩
  | binary hliteral hop hoperator hfirst _ hoperands hsecond _ hx hy =>
      obtain ⟨x, hx⟩ := hx
      obtain ⟨y, hy⟩ := hy
      exact ⟨binary _ x y, Fields.present?_eq_none_iff.2 hliteral, _, present?_object hop,
        hoperator, ⟨_, hfirst, hx⟩, hoperands, _, hsecond, hy⟩
  | nary hliteral hop hoperator hfirst _ hoperands _ hx hitems =>
      obtain ⟨x, hx⟩ := hx
      obtain ⟨xs, hxs⟩ := exists_forall₂ fun n hn =>
        let ⟨y, hy⟩ := hitems n hn
        show ∃ y : Expr, ofFields n = .ok y from ⟨y, ofFields_of_describedBy y hy⟩
      have hread : ofItems _ = .ok xs :=
        ofItems_eq_ok_iff.2 (List.forall₂_map_left_iff.2 (hxs.imp fun n y hy => ⟨n, rfl, hy⟩))
      exact ⟨nary _ x xs, Fields.present?_eq_none_iff.2 hliteral, _, present?_object hop,
        hoperator, ⟨_, hfirst, hx⟩, _, hoperands, itemsDescribedBy_of_ofItems xs hread⟩

theorem exists_ofFields_iff {m : Fields} : (∃ e, ofFields m = .ok e) ↔ InGrammar m := by
  simp only [ofFields_eq_ok_iff]
  exact ⟨fun ⟨e, he⟩ => inGrammar_of_describedBy e he, exists_describedBy_of_inGrammar⟩

/-! ### Fields that are not looked at -/

theorem ofOperand_of_object {op n : Fields} {key : String} (h : op.value? key = some (.object n)) :
    ofOperand op key = ofFields n := by
  rw [ofOperand]
  split
  · next k hk =>
      rw [h] at hk
      cases hk
      rfl
  · next v hne hv =>
      rw [h] at hv
      exact absurd (Option.some.inj hv).symm (hne n)
  · next hnone =>
      rw [h] at hnone
      cases hnone

theorem ofItems_congr {operands : List (Fields × Fields)}
    (h : ∀ p ∈ operands, ofFields p.1 = ofFields p.2) :
    ofItems (operands.map fun p => .object p.1) = ofItems (operands.map fun p => .object p.2) := by
  induction operands with
  | nil => rfl
  | cons p operands ih =>
      rw [List.forall_mem_cons] at h
      rw [List.map_cons, List.map_cons, ofItems, ofItems, h.1, ih h.2]

theorem ofFields_congr {m m' : Fields} (h : Agree m m') : ofFields m = ofFields m' := by
  induction h with
  | literal hm hm' hn =>
      rw [ofFields_of_literal (present?_object hm), ofFields_of_literal (present?_object hm'),
        Literal.ofFields_congr hn]
  | binary hm hm' hop hop' hoperator hfirst hfirst' _ hoperands hoperands' hsecond hsecond' _
      hx hy =>
      rw [ofFields_of_operator (Fields.present?_eq_none_iff.2 hm) (present?_object hop),
        ofFields_of_operator (Fields.present?_eq_none_iff.2 hm') (present?_object hop')]
      simp only [Fields.text, Fields.require, hoperator, ofOperand_of_object hfirst,
        ofOperand_of_object hfirst', hx, hoperands, hoperands', ofOperand_of_object hsecond,
        ofOperand_of_object hsecond', hy]
  | nary hm hm' hop hop' hoperator hfirst hfirst' _ hoperands hoperands' _ hx hitems =>
      rw [ofFields_of_operator (Fields.present?_eq_none_iff.2 hm) (present?_object hop),
        ofFields_of_operator (Fields.present?_eq_none_iff.2 hm') (present?_object hop')]
      simp only [Fields.text, Fields.require, hoperator, ofOperand_of_object hfirst,
        ofOperand_of_object hfirst', hx, hoperands, hoperands', ofItems_congr hitems]

/-! ### Reading and writing -/

theorem written_toFields (e : Expr) : Written e.toFields :=
  (same_toFields_iff e (all_toFields Json.lenient_distinctKeys e) e.describedBy_toFields).1
    (Json.same_refl _ (all_toFields Json.lenient_distinctKeys e))

/-- Exactly the objects of the grammar are read, and as the expression whose parts they hold, each
number as it is. Fields outside the grammar do not matter. Every expression is written as an object
of the grammar, without other fields, and read back. -/
theorem grammar :
    (∀ m, (∃ e, ofFields m = .ok e) ↔ InGrammar m) ∧
      (∀ m e, ofFields m = .ok e ↔ e.DescribedBy m) ∧
      (∀ m m', Agree m m' → ofFields m = ofFields m') ∧
      ∀ e : Expr, InGrammar e.toFields ∧ Written e.toFields ∧ ofFields e.toFields = .ok e :=
  ⟨fun _ => exists_ofFields_iff, fun _ _ => ofFields_eq_ok_iff, fun _ _ => ofFields_congr,
    fun e => ⟨inGrammar_of_describedBy e e.describedBy_toFields, e.written_toFields,
      e.ofFields_toFields⟩⟩

/-- A call with the least integer and the largest width. -/
def leastVectorCall : Expr := .call (.id "f") [.vector Int64.minValue 0xFFFFFFFF]

/-- The same with other fields everywhere, and with a literal that is null. -/
def annotatedCall : Fields :=
  [("line", .array []), ("literal", .null), ("binOperator", .object
    [("op1", .bool true),
      ("operands", .array [.object [("binOperator", .string "ADD"), ("literal", .object
        [("bits", .number (.integer (.ofNat32 0xFFFFFFFF))),
          ("value", .number (.integer (.ofInt64 Int64.minValue))), ("type", .string "INT")])]]),
      ("op0", .object [("literal", .object
        [("type", .string "ID"), ("bits", .string "none"), ("value", .string "f")])]),
      ("operator", .string "CALL")])]

/-- An integer literal. -/
def integerFields (n : Integer) : Fields :=
  [("literal", .object [("type", .string "INT"), ("value", .number (.integer n))])]

theorem annotatedCall_grammar : InGrammar annotatedCall ∧
    ofFields annotatedCall = .ok leastVectorCall ∧
    ¬InGrammar (integerFields ⟨0x8000000000000000, by decide, by decide⟩) := by
  obtain ⟨haccepts, -, hagree, hwritten⟩ := grammar
  have hcallee : Agree (Expr.id "f").toFields [("literal", .object
      [("type", .string "ID"), ("bits", .string "none"), ("value", .string "f")])] :=
    .literal rfl rfl ⟨rfl, rfl, fun h =>
      absurd (Json.string.inj (Option.some.inj (h : some (Json.string "ID") = _))) (by decide)⟩
  have hitems : ∀ p ∈ [((vector Int64.minValue 0xFFFFFFFF).toFields,
      ([("binOperator", .string "ADD"), ("literal", .object
        [("bits", .number (.integer (.ofNat32 0xFFFFFFFF))),
          ("value", .number (.integer (.ofInt64 Int64.minValue))), ("type", .string "INT")])] :
        Fields))], Agree p.1 p.2 :=
    List.forall_mem_singleton.2 (.literal rfl rfl ⟨rfl, rfl, fun _ => rfl⟩)
  have hcall : Agree leastVectorCall.toFields annotatedCall :=
    .nary (.inl rfl) (.inr rfl) rfl rfl rfl rfl rfl hcallee rfl rfl hitems
  have hread : ofFields annotatedCall = .ok leastVectorCall :=
    (hagree _ _ hcall).symm.trans (hwritten leastVectorCall).2.2
  refine ⟨(haccepts _).1 ⟨_, hread⟩, hread, fun h => ?_⟩
  obtain ⟨e, he⟩ := (haccepts _).2 h
  -- no expression holds an integer that 64 bits with a sign do not hold
  obtain ⟨n, l, hn, hl, -⟩ := (cases_of_ofFields he).resolve_right fun h => absurd h.1 nofun
  cases hn
  cases hl

end Expr

end HdlInterface
