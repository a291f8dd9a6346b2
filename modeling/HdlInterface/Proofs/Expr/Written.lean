import HdlInterface.Proofs.Expr.Document
import HdlInterface.Proofs.Json.Equality

/-!
# Expressions in written form

An object that is read as an expression is equal to the document of that expression, up to the
order of fields, exactly if it is in written form: it has the fields that are written and no
others, at every level, and no list for a name of one part (`Expr.same_toFields_iff`).
-/

namespace HdlInterface

/-! ## Literals -/

/-- A type and a value, where no list holds a single part; or the type, the value and the width of
a bit vector. -/
def Literal.Written (m : Fields) : Prop :=
  (m.HasExactly ["type", "value"] ∧ ∀ part, m.value? "value" ≠ some (.array [part])) ∨
    (m.HasExactly ["type", "value", "bits"] ∧ m.value? "type" = some (.string "INT") ∧
      m.value? "bits" ≠ some .null)

namespace Literal

/-- A literal with a type and a value is written so, but for a list of a single part. -/
theorem written_iff_of_bare {m : Fields} (hbits : m.present? "bits" = none) :
    Written m ↔ m.HasExactly ["type", "value"] ∧
      ∀ part, m.value? "value" ≠ some (.array [part]) := by
  refine or_iff_left ?_
  rintro ⟨hm, -, hne⟩
  obtain ⟨v, hv⟩ := Fields.exists_value?_of_mem_keys ((hm "bits").2 (by simp))
  rcases Fields.present?_eq_none_iff.1 hbits with h | h
  · rw [hv] at h
    cases h
  · exact hne h

theorem written_iff_of_kind {m : Fields} (hkind : m.value? "type" ≠ some (.string "INT")) :
    Written m ↔ m.HasExactly ["type", "value"] ∧
      ∀ part, m.value? "value" ≠ some (.array [part]) :=
  or_iff_left fun h => hkind h.2.1

theorem written_iff_of_vector {m : Fields} (hkind : m.value? "type" = some (.string "INT"))
    {bits : Json} (hbits : m.present? "bits" = some bits) :
    Written m ↔ m.HasExactly ["type", "value", "bits"] := by
  obtain ⟨hvalue, hne⟩ := Fields.present?_eq_some_iff.1 hbits
  constructor
  · rintro (⟨hm, -⟩ | ⟨hm, -⟩)
    · exact absurd ((hm _).1 (Fields.mem_keys_of_value? hvalue)) (by decide)
    · exact hm
  · intro hm
    exact .inr ⟨hm, hkind, fun h => hne (Option.some.inj (hvalue.symm.trans h))⟩

theorem toFields_name {parts : List String} (h : ∀ part, parts ≠ [part]) :
    (name parts).toFields = [("type", .string "ID"), ("value", .array (parts.map .string))] := by
  match parts with
  | [] => rfl
  | [part] => exact absurd rfl (h part)
  | _ :: _ :: _ => rfl

theorem same_toFields_iff {m : Fields} {l : Literal} (hm : m.keys.Nodup)
    (h : l.DescribedBy m) : l.toFields.same m = true ↔ Written m := by
  match l, h with
  | name parts, ⟨hkind, hvalue⟩ =>
      rw [written_iff_of_kind (by simp [hkind])]
      rcases hvalue with hvalue | ⟨part, rfl, hvalue⟩
      · have hself : (Json.array (parts.map .string)).same (.array (parts.map .string)) = true :=
          Json.same_array.2 (List.forall₂_same.2 fun v hv => by
            obtain ⟨s, -, rfl⟩ := List.mem_map.1 hv
            exact Json.same_string.2 rfl)
        by_cases hsingle : ∃ part, parts = [part]
        · obtain ⟨part, rfl⟩ := hsingle
          rw [toFields, Fields.same_iff_hasExactly (by simp) hm]
          simp [hkind, hvalue, Json.same_string, Json.same_string_array]
        · have hlist : ∀ part, parts ≠ [part] := fun part h => hsingle ⟨part, h⟩
          rw [toFields_name hlist, Fields.same_iff_hasExactly (by simp) hm]
          simp [hkind, hvalue, Json.same_string, hself, hlist]
      · rw [toFields, Fields.same_iff_hasExactly (by simp) hm]
        simp [hkind, hvalue, Json.same_string]
  | integer value none, ⟨hkind, hvalue, hbits⟩ =>
      rw [written_iff_of_bare hbits, toFields, Fields.same_iff_hasExactly (by simp) hm]
      simp [hkind, hvalue, Json.same_string, Json.same_integer]
  | integer value (some bits), ⟨hkind, hvalue, hbits⟩ =>
      rw [written_iff_of_vector hkind hbits, toFields, Fields.same_iff_hasExactly (by simp) hm]
      simp [hkind, hvalue, Fields.value?_of_present? hbits, Json.same_string, Json.same_integer]
  | string text, ⟨hkind, hvalue⟩ =>
      rw [written_iff_of_kind (by simp [hkind]), toFields,
        Fields.same_iff_hasExactly (by simp) hm]
      simp [hkind, hvalue, Json.same_string]

end Literal

/-! ## Expressions -/

namespace Expr

/-- A literal alone, or an operator alone with its operands, all in written form. -/
inductive Written : Fields → Prop
  | literal {m n : Fields} (hm : m.HasExactly ["literal"])
      (hliteral : m.value? "literal" = some (.object n)) (hn : Literal.Written n) : Written m
  | binary {m op x y : Fields} (hm : m.HasExactly ["binOperator"])
      (hoperator : m.value? "binOperator" = some (.object op))
      (hop : op.HasExactly ["operator", "op0", "op1"])
      (hfirst : op.value? "op0" = some (.object x)) (hx : Written x)
      (hsecond : op.value? "op1" = some (.object y)) (hy : Written y) : Written m
  | nary {m op x : Fields} {items : List Json} (hm : m.HasExactly ["binOperator"])
      (hoperator : m.value? "binOperator" = some (.object op))
      (hop : op.HasExactly ["operator", "op0", "operands"])
      (hfirst : op.value? "op0" = some (.object x)) (hx : Written x)
      (hoperands : op.value? "operands" = some (.array items))
      (hitems : ∀ n, Json.object n ∈ items → Written n) : Written m

theorem written_iff_of_literal {m n : Fields} (h : m.present? "literal" = some (.object n)) :
    Written m ↔ m.HasExactly ["literal"] ∧ Literal.Written n := by
  have hn := Fields.value?_of_present? h
  constructor
  · intro hw
    cases hw with
    | literal hm hliteral hn' =>
        rw [hn] at hliteral
        cases hliteral
        exact ⟨hm, hn'⟩
    | binary hm => exact absurd ((hm _).1 (Fields.mem_keys_of_value? hn)) (by decide)
    | nary hm => exact absurd ((hm _).1 (Fields.mem_keys_of_value? hn)) (by decide)
  · rintro ⟨hm, hliteral⟩
    exact .literal hm hn hliteral

theorem written_iff_of_binary {m op x y : Fields} (hliteral : m.present? "literal" = none)
    (hop : m.present? "binOperator" = some (.object op))
    (hx : op.value? "op0" = some (.object x)) (hoperands : op.value? "operands" = none)
    (hy : op.value? "op1" = some (.object y)) : Written m ↔
      m.HasExactly ["binOperator"] ∧ op.HasExactly ["operator", "op0", "op1"] ∧ Written x ∧
        Written y := by
  have hop := Fields.value?_of_present? hop
  constructor
  · intro hw
    cases hw with
    | literal _ hn =>
        rw [Fields.present?_eq_none_iff, hn] at hliteral
        simp at hliteral
    | binary hm hop' hkeys hx' hwx hy' hwy =>
        rw [hop] at hop'
        cases hop'
        rw [hx] at hx'
        cases hx'
        rw [hy] at hy'
        cases hy'
        exact ⟨hm, hkeys, hwx, hwy⟩
    | nary _ hop' _ _ _ hoperands' =>
        rw [hop] at hop'
        cases hop'
        rw [hoperands] at hoperands'
        cases hoperands'
  · rintro ⟨hm, hkeys, hwx, hwy⟩
    exact .binary hm hop hkeys hx hwx hy hwy

theorem written_iff_of_nary {m op x : Fields} {items : List Json}
    (hliteral : m.present? "literal" = none) (hop : m.present? "binOperator" = some (.object op))
    (hx : op.value? "op0" = some (.object x))
    (hoperands : op.value? "operands" = some (.array items)) : Written m ↔
      m.HasExactly ["binOperator"] ∧ op.HasExactly ["operator", "op0", "operands"] ∧ Written x ∧
        ∀ n, Json.object n ∈ items → Written n := by
  have hop := Fields.value?_of_present? hop
  constructor
  · intro hw
    cases hw with
    | literal _ hn =>
        rw [Fields.present?_eq_none_iff, hn] at hliteral
        simp at hliteral
    | binary _ hop' hkeys =>
        rw [hop] at hop'
        cases hop'
        exact absurd ((hkeys _).1 (Fields.mem_keys_of_value? hoperands)) (by decide)
    | nary hm hop' hkeys hx' hwx hoperands' hitems =>
        rw [hop] at hop'
        cases hop'
        rw [hx] at hx'
        cases hx'
        rw [hoperands] at hoperands'
        cases hoperands'
        exact ⟨hm, hkeys, hwx, hitems⟩
  · rintro ⟨hm, hkeys, hwx, hitems⟩
    exact .nary hm hop hkeys hx hwx hoperands hitems

mutual

theorem same_toFields_iff {m : Fields} : (e : Expr) → (Json.object m).WellFormed →
    e.DescribedBy m → (e.toFields.same m = true ↔ Written m)
  | literal l, hm, ⟨n, hn, hl⟩ => by
      have hvalue := Fields.value?_of_present? hn
      have hinner := Literal.same_toFields_iff (hm.of_value? hvalue).nodup_keys hl
      rw [written_iff_of_literal hn, ← hinner, toFields,
        Fields.same_iff_hasExactly (by simp) hm.nodup_keys]
      simp [hvalue, Fields.same]
  | binary o x y, hm, ⟨hliteral, op, hop, ho, ⟨n, hn, hx⟩, hoperands, k, hk, hy⟩ => by
      have hvalue := Fields.value?_of_present? hop
      have hwell := hm.of_value? hvalue
      have hx := same_toFields_iff x (hwell.of_value? hn) hx
      have hy := same_toFields_iff y (hwell.of_value? hk) hy
      have hinner : Fields.same [("operator", .string o), ("op0", .object x.toFields),
          ("op1", .object y.toFields)] op = true ↔
          op.HasExactly ["operator", "op0", "op1"] ∧ Written n ∧ Written k := by
        rw [Fields.same_iff_hasExactly (by simp) hwell.nodup_keys, ← hx, ← hy]
        simp [ho, hn, hk, Json.same_string, Fields.same]
      rw [written_iff_of_binary hliteral hop hn hoperands hk, ← hinner, toFields,
        Fields.same_iff_hasExactly (by simp) hm.nodup_keys]
      simp [hvalue, Fields.same]
  | nary o x xs, hm, ⟨hliteral, op, hop, ho, ⟨n, hn, hx⟩, items, hitems, hxs⟩ => by
      have hvalue := Fields.value?_of_present? hop
      have hwell := hm.of_value? hvalue
      have hx := same_toFields_iff x (hwell.of_value? hn) hx
      have hxs := same_toItems_iff xs (Json.all_array.1 (hwell.of_value? hitems)).2 hxs
      have hinner : Fields.same [("operator", .string o), ("op0", .object x.toFields),
          ("operands", .array (toItems xs))] op = true ↔
          op.HasExactly ["operator", "op0", "operands"] ∧ Written n ∧
            ∀ n, Json.object n ∈ items → Written n := by
        rw [Fields.same_iff_hasExactly (by simp) hwell.nodup_keys, ← hx, ← hxs]
        simp [ho, hn, hitems, Json.same_string, Json.same_array, Fields.same]
      rw [written_iff_of_nary hliteral hop hn hitems, ← hinner, toFields,
        Fields.same_iff_hasExactly (by simp) hm.nodup_keys]
      simp [hvalue, Fields.same]

theorem same_toItems_iff {items : List Json} : (xs : List Expr) →
    (∀ v ∈ items, v.WellFormed) → ItemsDescribedBy items xs →
    (List.Forall₂ (fun v w => v.same w = true) (toItems xs) items ↔
      ∀ n, Json.object n ∈ items → Written n)
  | [], _, h => by
      obtain rfl : items = [] := h
      simp [toItems]
  | x :: xs, hm, ⟨n, rest, hitems, hx, hxs⟩ => by
      subst hitems
      rw [List.forall_mem_cons] at hm
      have hx := same_toFields_iff x hm.1 hx
      have hxs := same_toItems_iff xs hm.2 hxs
      rw [toItems, List.forall₂_cons, hxs, ← Fields.same, hx]
      simp [or_imp, forall_and]

end

end Expr

end HdlInterface
