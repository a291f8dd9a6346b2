import HdlInterface.Expr.Document
import HdlInterface.Proofs.Document.Field

/-!
# Expressions as documents

What it takes for an object to be read as a given expression (`ofFields_eq_ok_iff`), and the
reading of every written expression (`ofFields_toFields`).
-/

namespace HdlInterface

/-! ## Numbers -/

namespace Number

theorem toInt64?_eq_some_iff {n : Number} {w : Int64} :
    n.toInt64? = some w ↔ n = .integer (.ofInt64 w) := by
  cases n with
  | double x => simp [toInt64?]
  | integer n =>
      obtain ⟨value, lower, upper⟩ := n
      simp [toInt64?, int64?_eq_some_iff, Integer.ofInt64, eq_comm]

theorem toUInt32?_eq_some_iff {n : Number} {w : UInt32} :
    n.toUInt32? = some w ↔ n = .integer (.ofNat32 w) := by
  cases n with
  | double x => simp [toUInt32?]
  | integer n =>
      obtain ⟨value, lower, upper⟩ := n
      simp [toUInt32?, uint32?_eq_some_iff, Integer.ofNat32, eq_comm]

end Number

/-! ## Literals -/

namespace Literal

/-- The fields describe the literal; a name of one part may stand without a list. -/
def DescribedBy (m : Fields) : Literal → Prop
  | name parts => m.value? "type" = some (.string "ID") ∧
      (m.value? "value" = some (.array (parts.map .string)) ∨
        ∃ part, parts = [part] ∧ m.value? "value" = some (.string part))
  | integer value bits => m.value? "type" = some (.string "INT") ∧
      m.value? "value" = some (.number (.integer (.ofInt64 value))) ∧
      m.present? "bits" = bits.map fun k => .number (.integer (.ofNat32 k))
  | string text => m.value? "type" = some (.string "STRING") ∧
      m.value? "value" = some (.string text)

theorem mapM_textAt_eq_ok_iff {items : List Json} {parts : List String} {key : String}
    {expected : Shape} :
    items.mapM (·.textAt key expected) = .ok parts ↔ items = parts.map .string := by
  have htext : ∀ (v : Json) (s : String), v.textAt key expected = .ok s ↔ v = .string s := by
    intro v s
    cases v <;> simp [Json.textAt]
  simp only [mapM_eq_ok_iff, htext]
  constructor
  · intro h
    simpa using map_eq_map_of_forall₂ (f := id) h fun _ _ hv => hv
  · rintro rfl
    exact List.forall₂_map_left_iff.2 (List.forall₂_same.2 fun _ _ => rfl)

theorem describedBy_of_ofFields {m : Fields} {l : Literal} (h : ofFields m = .ok l) :
    l.DescribedBy m := by
  rw [ofFields, bind_eq_ok_iff] at h
  obtain ⟨kind, hkind, h⟩ := h
  obtain ⟨value, hvalue, h⟩ := bind_eq_ok_iff.1 h
  rw [Fields.text_eq_ok_iff] at hkind
  rw [Fields.require_eq_ok_iff] at hvalue
  split at h
  · split at h
    · obtain rfl := pure_eq_ok_iff.1 h
      exact ⟨hkind, .inr ⟨_, rfl, hvalue⟩⟩
    · obtain ⟨parts, hparts, h⟩ := bind_eq_ok_iff.1 h
      obtain rfl := pure_eq_ok_iff.1 h
      rw [mapM_textAt_eq_ok_iff.1 hparts] at hvalue
      exact ⟨hkind, .inl hvalue⟩
    · cases h
  · dsimp only at h
    split at h
    · next number =>
        obtain ⟨w, hw, h⟩ := bind_eq_ok_iff.1 h
        cases hint : number.toInt64? with
        | none =>
            rw [hint] at hw
            cases hw
        | some n =>
            rw [hint] at hw
            cases hw
            rw [Number.toInt64?_eq_some_iff.1 hint] at hvalue
            split at h
            · next hbits =>
                obtain rfl := pure_eq_ok_iff.1 h
                exact ⟨hkind, hvalue, hbits⟩
            · next b hbits =>
                split at h
                · next k hk =>
                    obtain rfl := pure_eq_ok_iff.1 h
                    rw [Number.toUInt32?_eq_some_iff.1 hk] at hbits
                    exact ⟨hkind, hvalue, hbits⟩
                · cases h
            · cases h
    · obtain ⟨w, hw, -⟩ := bind_eq_ok_iff.1 h
      cases hw
  · obtain ⟨text, htext, h⟩ := bind_eq_ok_iff.1 h
    obtain rfl := pure_eq_ok_iff.1 h
    cases value <;> cases htext
    exact ⟨hkind, hvalue⟩
  · cases h

theorem ofFields_integer {m : Fields} {n : Number} {value : Int64}
    (hkind : m.value? "type" = some (.string "INT")) (hvalue : m.value? "value" = some (.number n))
    (hword : n.toInt64? = some value) (hbits : m.present? "bits" = none) :
    ofFields m = .ok (integer value none) := by
  simp only [ofFields, Fields.text_eq_ok_iff.2 hkind, Fields.require_eq_ok_iff.2 hvalue, ok_bind,
    hword, hbits]
  rfl

theorem ofFields_vector {m : Fields} {n k : Number} {value : Int64} {bits : UInt32}
    (hkind : m.value? "type" = some (.string "INT")) (hvalue : m.value? "value" = some (.number n))
    (hword : n.toInt64? = some value) (hbits : m.present? "bits" = some (.number k))
    (hwidth : k.toUInt32? = some bits) : ofFields m = .ok (integer value (some bits)) := by
  simp only [ofFields, Fields.text_eq_ok_iff.2 hkind, Fields.require_eq_ok_iff.2 hvalue, ok_bind,
    hword, hbits, hwidth]
  rfl

theorem ofFields_of_describedBy {m : Fields} {l : Literal} (h : l.DescribedBy m) :
    ofFields m = .ok l := by
  cases l with
  | name parts =>
      obtain ⟨hkind, hvalue⟩ := h
      have htext := Fields.text_eq_ok_iff.2 hkind
      rcases hvalue with hvalue | ⟨part, rfl, hvalue⟩
      · have hparts : (parts.map Json.string).mapM (·.textAt "value" .namePart) = .ok parts :=
          mapM_textAt_eq_ok_iff.2 rfl
        simp only [ofFields, htext, Fields.require_eq_ok_iff.2 hvalue, ok_bind, hparts]
        rfl
      · simp only [ofFields, htext, Fields.require_eq_ok_iff.2 hvalue, ok_bind]
        rfl
  | integer value bits =>
      obtain ⟨hkind, hvalue, hbits⟩ := h
      have hword := Number.toInt64?_eq_some_iff.2 (rfl : Number.integer (.ofInt64 value) = _)
      cases bits with
      | none => exact ofFields_integer hkind hvalue hword hbits
      | some k =>
          exact ofFields_vector hkind hvalue hword hbits (Number.toUInt32?_eq_some_iff.2 rfl)
  | string text =>
      obtain ⟨hkind, hvalue⟩ := h
      simp only [ofFields, Fields.text_eq_ok_iff.2 hkind, Fields.require_eq_ok_iff.2 hvalue]
      rfl

theorem ofFields_eq_ok_iff {m : Fields} {l : Literal} : ofFields m = .ok l ↔ l.DescribedBy m :=
  ⟨describedBy_of_ofFields, ofFields_of_describedBy⟩

theorem describedBy_toFields (l : Literal) : l.DescribedBy l.toFields := by
  match l with
  | name [] => exact ⟨rfl, .inl rfl⟩
  | name [part] => exact ⟨rfl, .inr ⟨part, rfl, rfl⟩⟩
  | name (p :: q :: parts) => exact ⟨rfl, .inl rfl⟩
  | integer value none => exact ⟨rfl, rfl, rfl⟩
  | integer value (some bits) => exact ⟨rfl, rfl, rfl⟩
  | string text => exact ⟨rfl, rfl⟩

theorem all_toFields {p : Json → Bool} (hp : Json.Lenient p) (l : Literal) :
    (Json.object l.toFields).all p := by
  have hparts : ∀ parts : List String, (Json.array (parts.map .string)).all p := fun parts =>
    hp.array fun v hv => by
      obtain ⟨s, -, rfl⟩ := List.mem_map.1 hv
      exact hp.string s
  unfold toFields
  split <;> refine hp.object (by simp) ?_ <;>
    simp [hp.string, hp.integer, hparts]

end Literal

/-! ## Expressions -/

namespace Expr

mutual

/-- The fields describe the expression. A literal hides an operator, a list of operands hides a
second operand, and other fields are disregarded. -/
def DescribedBy (m : Fields) : Expr → Prop
  | literal l => ∃ n, m.present? "literal" = some (.object n) ∧ l.DescribedBy n
  | binary o x y => m.present? "literal" = none ∧ ∃ op : Fields,
      m.present? "binOperator" = some (.object op) ∧ op.value? "operator" = some (.string o) ∧
      (∃ n, op.value? "op0" = some (.object n) ∧ x.DescribedBy n) ∧ op.value? "operands" = none ∧
      ∃ n, op.value? "op1" = some (.object n) ∧ y.DescribedBy n
  | nary o x xs => m.present? "literal" = none ∧ ∃ op : Fields,
      m.present? "binOperator" = some (.object op) ∧ op.value? "operator" = some (.string o) ∧
      (∃ n, op.value? "op0" = some (.object n) ∧ x.DescribedBy n) ∧
      ∃ items, op.value? "operands" = some (.array items) ∧ ItemsDescribedBy items xs

def ItemsDescribedBy (items : List Json) : List Expr → Prop
  | [] => items = []
  | x :: xs => ∃ n rest, items = .object n :: rest ∧ x.DescribedBy n ∧ ItemsDescribedBy rest xs

end

/-! ### One step of reading -/

theorem ofOperand_eq_ok_iff {op : Fields} {key : String} {x : Expr} :
    ofOperand op key = .ok x ↔ ∃ n, op.value? key = some (.object n) ∧ ofFields n = .ok x := by
  rw [ofOperand]
  split
  · next n h => simp [h]
  · next v hne h =>
      constructor
      · intro h
        cases h
      · rintro ⟨n, hn, -⟩
        rw [h] at hn
        exact absurd (Option.some.inj hn) (hne n)
  · next h => simp [h]

theorem ofFields_of_literal {m n : Fields} (h : m.present? "literal" = some (.object n)) :
    ofFields m = literal <$> Literal.ofFields n := by
  rw [ofFields]
  split
  · next l hl =>
      rw [h] at hl
      cases hl
      rfl
  · next v hne hl =>
      rw [h] at hl
      exact absurd (Option.some.inj hl).symm (hne n)
  · next hl =>
      rw [h] at hl
      cases hl

theorem ofFields_of_operator {m op : Fields} (hliteral : m.present? "literal" = none)
    (hop : m.present? "binOperator" = some (.object op)) :
    ofFields m = do
      let o ← op.text "operator"
      let x ← ofOperand op "op0"
      match Fields.value? op "operands" with
      | some (.array items) => return nary o x (← ofItems items)
      | some _ => throw (.unexpectedType "operands" .array)
      | none => return binary o x (← ofOperand op "op1") := by
  rw [ofFields]
  split
  · next hl =>
      rw [hliteral] at hl
      cases hl
  · next hl =>
      rw [hliteral] at hl
      cases hl
  · split
    · next op' ho =>
        rw [hop] at ho
        cases ho
        refine bind_congr fun o => bind_congr fun x => ?_
        split <;> rename_i h <;> simp only [h]
    · next v hne ho =>
        rw [hop] at ho
        exact absurd (Option.some.inj ho).symm (hne op)
    · next ho =>
        rw [hop] at ho
        cases ho

/-- Fields that are read hold an object for a literal, or no literal and one for an operator. -/
theorem literal_or_operator_of_ofFields {m : Fields} {e : Expr} (h : ofFields m = .ok e) :
    (∃ n, m.present? "literal" = some (.object n)) ∨
      m.present? "literal" = none ∧ ∃ op, m.present? "binOperator" = some (.object op) := by
  rw [ofFields] at h
  split at h
  · next n hl => exact .inl ⟨n, hl⟩
  · cases h
  · next hl =>
      refine .inr ⟨hl, ?_⟩
      split at h
      · next op ho => exact ⟨op, ho⟩
      · cases h
      · cases h

theorem ofItems_eq_ok_iff {items : List Json} {xs : List Expr} : ofItems items = .ok xs ↔
    List.Forall₂ (fun v x => ∃ n, v = .object n ∧ ofFields n = .ok x) items xs := by
  induction items generalizing xs with
  | nil =>
      rw [ofItems, List.forall₂_nil_left_iff]
      exact ⟨fun h => (Except.ok.inj h).symm, fun h => h ▸ rfl⟩
  | cons v rest ih =>
      rw [List.forall₂_cons_left_iff]
      cases v <;> simp only [ofItems, bind_eq_ok_iff, pure_eq_ok_iff, ih]
      case object m =>
        constructor
        · rintro ⟨x, hx, xs', hxs, rfl⟩
          exact ⟨x, xs', ⟨m, rfl, hx⟩, hxs, rfl⟩
        · rintro ⟨x, xs', ⟨n, hn, hx⟩, hxs, rfl⟩
          cases hn
          exact ⟨x, hx, xs', hxs, rfl⟩
      all_goals
        constructor
        · rintro ⟨⟩
        · rintro ⟨x, xs', ⟨n, hn, -⟩, -⟩
          cases hn

/-- What one reading step finds, and what it leaves to read. -/
theorem cases_of_ofFields {m : Fields} {e : Expr} (h : ofFields m = .ok e) :
    (∃ n l, m.present? "literal" = some (.object n) ∧ Literal.ofFields n = .ok l ∧
      e = literal l) ∨
    m.present? "literal" = none ∧ ∃ (op : Fields) (o : String) (x : Expr),
      m.present? "binOperator" = some (.object op) ∧ op.value? "operator" = some (.string o) ∧
      ofOperand op "op0" = .ok x ∧
      ((∃ y, op.value? "operands" = none ∧ ofOperand op "op1" = .ok y ∧ e = binary o x y) ∨
        ∃ items xs, op.value? "operands" = some (.array items) ∧ ofItems items = .ok xs ∧
          e = nary o x xs) := by
  rcases literal_or_operator_of_ofFields h with ⟨n, hl⟩ | ⟨hl, op, ho⟩
  · rw [ofFields_of_literal hl] at h
    cases hn : Literal.ofFields n with
    | error e =>
        rw [hn] at h
        cases h
    | ok l =>
        rw [hn] at h
        exact .inl ⟨n, l, hl, hn, (Except.ok.inj h).symm⟩
  · rw [ofFields_of_operator hl ho] at h
    obtain ⟨o, hoperator, h⟩ := bind_eq_ok_iff.1 h
    obtain ⟨x, hx, h⟩ := bind_eq_ok_iff.1 h
    refine .inr ⟨hl, op, o, x, ho, Fields.text_eq_ok_iff.1 hoperator, hx, ?_⟩
    split at h
    · next items hitems =>
        obtain ⟨xs, hxs, h⟩ := bind_eq_ok_iff.1 h
        exact .inr ⟨items, xs, hitems, hxs, (pure_eq_ok_iff.1 h).symm⟩
    · cases h
    · next hitems =>
        obtain ⟨y, hy, h⟩ := bind_eq_ok_iff.1 h
        exact .inl ⟨y, hitems, hy, (pure_eq_ok_iff.1 h).symm⟩

/-! ### Reading in full -/

mutual

theorem describedBy_of_ofFields {m : Fields} : (e : Expr) → ofFields m = .ok e → e.DescribedBy m
  | literal l, h => by
      rcases cases_of_ofFields h with ⟨n, l', hl, hn, ⟨⟩⟩ | ⟨-, op, o, x, -, -, -, h⟩
      · exact ⟨n, hl, Literal.ofFields_eq_ok_iff.1 hn⟩
      · obtain ⟨y, -, -, ⟨⟩⟩ | ⟨items, xs, -, -, ⟨⟩⟩ := h
  | binary o x y, h => by
      rcases cases_of_ofFields h with ⟨n, l', -, -, ⟨⟩⟩ | ⟨hl, op, o, x, ho, hoperator, hx, h⟩
      rcases h with ⟨y, hitems, hy, ⟨⟩⟩ | ⟨items, xs, -, -, ⟨⟩⟩
      obtain ⟨n, hn, hx⟩ := ofOperand_eq_ok_iff.1 hx
      obtain ⟨k, hk, hy⟩ := ofOperand_eq_ok_iff.1 hy
      exact ⟨hl, op, ho, hoperator, ⟨n, hn, describedBy_of_ofFields x hx⟩, hitems, k, hk,
        describedBy_of_ofFields y hy⟩
  | nary o x xs, h => by
      rcases cases_of_ofFields h with ⟨n, l', -, -, ⟨⟩⟩ | ⟨hl, op, o, x, ho, hoperator, hx, h⟩
      rcases h with ⟨y, -, -, ⟨⟩⟩ | ⟨items, xs, hitems, hxs, ⟨⟩⟩
      obtain ⟨n, hn, hx⟩ := ofOperand_eq_ok_iff.1 hx
      exact ⟨hl, op, ho, hoperator, ⟨n, hn, describedBy_of_ofFields x hx⟩, items, hitems,
        itemsDescribedBy_of_ofItems xs hxs⟩

theorem itemsDescribedBy_of_ofItems {items : List Json} :
    (xs : List Expr) → ofItems items = .ok xs → ItemsDescribedBy items xs
  | [], h => List.forall₂_nil_right_iff.1 (ofItems_eq_ok_iff.1 h)
  | x :: xs, h => by
      obtain ⟨v, rest, ⟨n, rfl, hx⟩, hxs, rfl⟩ :=
        List.forall₂_cons_right_iff.1 (ofItems_eq_ok_iff.1 h)
      exact ⟨n, rest, rfl, describedBy_of_ofFields x hx,
        itemsDescribedBy_of_ofItems xs (ofItems_eq_ok_iff.2 hxs)⟩

end

mutual

theorem ofFields_of_describedBy {m : Fields} : (e : Expr) → e.DescribedBy m → ofFields m = .ok e
  | literal l, ⟨n, hl, hn⟩ => by
      rw [ofFields_of_literal hl, Literal.ofFields_eq_ok_iff.2 hn]
      rfl
  | binary o x y, ⟨hl, op, ho, hoperator, ⟨n, hn, hx⟩, hitems, k, hk, hy⟩ => by
      have hx := ofOperand_eq_ok_iff.2 ⟨n, hn, ofFields_of_describedBy x hx⟩
      have hy := ofOperand_eq_ok_iff.2 ⟨k, hk, ofFields_of_describedBy y hy⟩
      rw [ofFields_of_operator hl ho, Fields.text_eq_ok_iff.2 hoperator, ok_bind, hx, ok_bind]
      simp only [hitems, hy]
      rfl
  | nary o x xs, ⟨hl, op, ho, hoperator, ⟨n, hn, hx⟩, items, hitems, hxs⟩ => by
      have hx := ofOperand_eq_ok_iff.2 ⟨n, hn, ofFields_of_describedBy x hx⟩
      rw [ofFields_of_operator hl ho, Fields.text_eq_ok_iff.2 hoperator, ok_bind, hx, ok_bind]
      simp only [hitems, ofItems_of_itemsDescribedBy xs hxs]
      rfl

theorem ofItems_of_itemsDescribedBy {items : List Json} :
    (xs : List Expr) → ItemsDescribedBy items xs → ofItems items = .ok xs
  | [], h => by
      obtain rfl : items = [] := h
      exact ofItems_eq_ok_iff.2 .nil
  | x :: xs, ⟨n, rest, hitems, hx, hxs⟩ => by
      subst hitems
      exact ofItems_eq_ok_iff.2 (.cons ⟨n, rfl, ofFields_of_describedBy x hx⟩
        (ofItems_eq_ok_iff.1 (ofItems_of_itemsDescribedBy xs hxs)))

end

theorem ofFields_eq_ok_iff {m : Fields} {e : Expr} : ofFields m = .ok e ↔ e.DescribedBy m :=
  ⟨describedBy_of_ofFields e, ofFields_of_describedBy e⟩

/-! ## Written expressions -/

mutual

theorem describedBy_toFields : (e : Expr) → e.DescribedBy e.toFields
  | literal l => ⟨l.toFields, rfl, l.describedBy_toFields⟩
  | binary _ x y => ⟨rfl, _, rfl, rfl, ⟨x.toFields, rfl, describedBy_toFields x⟩, rfl, y.toFields,
      rfl, describedBy_toFields y⟩
  | nary _ x xs => ⟨rfl, _, rfl, rfl, ⟨x.toFields, rfl, describedBy_toFields x⟩, toItems xs, rfl,
      itemsDescribedBy_toItems xs⟩

theorem itemsDescribedBy_toItems : (xs : List Expr) → ItemsDescribedBy (toItems xs) xs
  | [] => rfl
  | x :: xs => ⟨x.toFields, toItems xs, rfl, describedBy_toFields x, itemsDescribedBy_toItems xs⟩

end

/-- Every written expression is read back. -/
theorem ofFields_toFields (e : Expr) : ofFields e.toFields = .ok e :=
  ofFields_of_describedBy e e.describedBy_toFields

mutual

theorem all_toFields {p : Json → Bool} (hp : Json.Lenient p) :
    (e : Expr) → (Json.object e.toFields).all p
  | literal l => by
      rw [toFields]
      exact hp.object (by simp) (by simpa using l.all_toFields hp)
  | binary o x y => by
      rw [toFields]
      refine hp.object (by simp) ?_
      rw [List.forall_mem_singleton]
      refine hp.object (by simp) ?_
      simp [hp.string, all_toFields hp x, all_toFields hp y]
  | nary o x xs => by
      rw [toFields]
      refine hp.object (by simp) ?_
      rw [List.forall_mem_singleton]
      refine hp.object (by simp) ?_
      simp [hp.string, all_toFields hp x, hp.array (all_toItems hp xs)]

theorem all_toItems {p : Json → Bool} (hp : Json.Lenient p) :
    (xs : List Expr) → ∀ v ∈ toItems xs, v.all p
  | [] => nofun
  | x :: xs => by
      rw [toItems, List.forall_mem_cons]
      exact ⟨all_toFields hp x, all_toItems hp xs⟩

end

end Expr

end HdlInterface
