import HdlInterface.Proofs.Json.Equality

/-!
# Equality up to the order of fields is an equivalence

Among values in which no object repeats a key, equality is symmetric and transitive. Two such
objects are equal exactly if they hold, under every key, nothing or equal values
(`Fields.same_iff_related`); so what is found under a key, what is left without some keys and what
comes of storing values agrees in both.
-/

namespace HdlInterface

/-! ## Optional values related to each other -/

section Related

variable {α β γ : Type} {R : α → β → Prop} {x : Option α} {y : Option β}

theorem exists_of_rel_left (h : Option.Rel R x y) {a : α} (hx : x = some a) :
    ∃ b, y = some b ∧ R a b := by
  subst hx
  cases h
  exact ⟨_, rfl, ‹_›⟩

theorem exists_of_rel_right (h : Option.Rel R x y) {b : β} (hy : y = some b) :
    ∃ a, x = some a ∧ R a b := by
  subst hy
  cases h
  exact ⟨_, rfl, ‹_›⟩

/-- A relation may be weakened between the values that are there. -/
theorem rel_imp {S : α → β → Prop} (h : Option.Rel R x y)
    (hS : ∀ a b, x = some a → y = some b → R a b → S a b) : Option.Rel S x y := by
  cases h with
  | none => exact .none
  | some hab => exact .some (hS _ _ rfl rfl hab)

theorem rel_flip {S : β → α → Prop} (h : Option.Rel R x y)
    (hS : ∀ a b, x = some a → R a b → S b a) : Option.Rel S y x := by
  cases h with
  | none => exact .none
  | some hab => exact .some (hS _ _ rfl hab)

theorem rel_trans {S : β → γ → Prop} {T : α → γ → Prop} {z : Option γ} (h : Option.Rel R x y)
    (hyz : Option.Rel S y z) (hT : ∀ a b c, x = some a → R a b → S b c → T a c) :
    Option.Rel T x z := by
  cases h with
  | none =>
    cases hyz
    exact .none
  | some hab =>
    cases hyz with
    | some hbc => exact .some (hT _ _ _ rfl hab hbc)

theorem rel_or {x' : Option α} {y' : Option β} (h : Option.Rel R x y) (h' : Option.Rel R x' y') :
    Option.Rel R (x.or x') (y.or y') := by
  cases h with
  | none => exact h'
  | some hab => exact .some hab

end Related

/-! ## Numbers -/

theorem Binary64.same_iff {x y : Binary64} : x.same y = true ↔
    x = y ∨ x.magnitude.significand = 0 ∧ y.magnitude.significand = 0 := by
  simp [same]

namespace Number

variable {n m k : Number}

theorem same_symm (h : n.same m = true) : m.same n = true := by
  cases n <;> cases m <;>
    simp only [same, Binary64.same_iff, beq_iff_eq, Bool.false_eq_true] at h ⊢
  case integer => exact h.symm
  case double => exact h.imp Eq.symm And.symm

theorem same_trans (hnm : n.same m = true) (hmk : m.same k = true) : n.same k = true := by
  cases n <;> cases m <;> cases k <;>
    simp only [same, Binary64.same_iff, beq_iff_eq, Bool.false_eq_true] at hnm hmk ⊢
  case integer => exact hnm.trans hmk
  case double =>
    obtain rfl | ⟨hn, hm⟩ := hnm
    · exact hmk
    · obtain rfl | ⟨-, hk⟩ := hmk
      · exact .inr ⟨hn, hm⟩
      · exact .inr ⟨hn, hk⟩

theorem toInt64?_eq_of_same (h : n.same m = true) : n.toInt64? = m.toInt64? := by
  cases n <;> cases m <;> simp_all [same, toInt64?]

theorem toUInt32?_eq_of_same (h : n.same m = true) : n.toUInt32? = m.toUInt32? := by
  cases n <;> cases m <;> simp_all [same, toUInt32?]

end Number

/-! ## Values -/

namespace Json

/-- Induction on the parts of a value. -/
theorem parts_induction {P : Json → Prop} (array : ∀ items, (∀ v ∈ items, P v) → P (array items))
    (object : ∀ m : Fields, (∀ f ∈ m, P f.2) → P (object m))
    (plain : ∀ v, (∀ items, v ≠ .array items) → (∀ m, v ≠ .object m) → P v) (v : Json) : P v := by
  refine @Json.rec P (fun items => ∀ v ∈ items, P v) (fun m => ∀ f ∈ m, P f.2) (fun f => P f.2)
    ?null ?bool ?number ?string array object (List.forall_mem_nil _)
    (fun v items hv hitems => List.forall_mem_cons.2 ⟨hv, hitems⟩) (List.forall_mem_nil _)
    (fun f m hf hm => List.forall_mem_cons.2 ⟨hf, hm⟩) (fun _ _ hv => hv) v
  case null => exact plain _ (fun _ h => by cases h) (fun _ h => by cases h)
  all_goals exact fun _ => plain _ (fun _ h => by cases h) (fun _ h => by cases h)

/-- Equality of values in which no object repeats a key. -/
def Same (v w : Json) : Prop := v.WellFormed ∧ w.WellFormed ∧ v.same w = true

namespace Same

variable {u v w : Json}

theorem refl (hv : v.WellFormed) : v.Same v := ⟨hv, hv, v.same_refl hv⟩

theorem string {s t : String} (h : s = t) : (string s).Same (string t) :=
  h ▸ refl (lenient_distinctKeys.string s)

end Same

end Json

theorem forall₂_restrict_iff {α β : Type} {P : α → Prop} {Q : β → Prop} {R : α → β → Prop}
    {xs : List α} {ys : List β} : List.Forall₂ (fun x y => P x ∧ Q y ∧ R x y) xs ys ↔
      (∀ x ∈ xs, P x) ∧ (∀ y ∈ ys, Q y) ∧ List.Forall₂ R xs ys := by
  induction xs generalizing ys with
  | nil => cases ys <;> simp
  | cons x xs ih =>
    cases ys with
    | nil => simp
    | cons y ys =>
      simp only [List.forall₂_cons, ih, List.forall_mem_cons]
      tauto

namespace Json

theorem same_array_iff {vs ws : List Json} :
    (array vs).Same (array ws) ↔ List.Forall₂ Same vs ws := by
  unfold Same
  rw [forall₂_restrict_iff, same_array, WellFormed, WellFormed, all_array, all_array]
  simp [distinctKeys, WellFormed]

end Json

namespace Fields

/-- Equality of objects in which no object repeats a key. -/
def Same (m n : Fields) : Prop := (Json.object m).Same (.object n)

/-- Neither object repeats a key, and under every key both hold nothing or related values. -/
structure Related (R : String → Json → Json → Prop) (m n : Fields) : Prop where
  nodup_left : m.keys.Nodup
  nodup_right : n.keys.Nodup
  value? : ∀ key, Option.Rel (R key) (m.value? key) (n.value? key)

variable {m n : Fields}

theorem wellFormed_iff : (Json.object m).WellFormed ↔
    m.keys.Nodup ∧ ∀ key v, m.value? key = some v → v.WellFormed := by
  constructor
  · exact fun h => ⟨h.nodup_keys, fun key v hv => h.of_value? hv⟩
  · rintro ⟨hm, hvalues⟩
    refine Json.all_object.2 ⟨by simpa [Json.distinctKeys] using hm, fun f hf => ?_⟩
    exact hvalues f.1 f.2 ((value?_eq_some_iff hm).2 hf)

/-- Equal objects hold under every key nothing, or equal values. -/
theorem same_iff_related : m.Same n ↔ Related (fun _ => Json.Same) m n := by
  constructor
  · rintro ⟨hm, hn, hsame⟩
    obtain ⟨hkeys, hvalues⟩ := (same_iff hm.nodup_keys hn.nodup_keys).1 hsame
    refine ⟨hm.nodup_keys, hn.nodup_keys, fun key => ?_⟩
    cases hv : m.value? key with
    | none =>
      rw [value?_eq_none_iff.2 (mt (hkeys key).2 (value?_eq_none_iff.1 hv))]
      exact .none
    | some v =>
      obtain ⟨w, hw⟩ := exists_value?_of_mem_keys ((hkeys key).1 (mem_keys_of_value? hv))
      rw [hw]
      exact .some ⟨hm.of_value? hv, hn.of_value? hw, hvalues key v w hv hw⟩
  · rintro ⟨hm, hn, hrel⟩
    refine ⟨wellFormed_iff.2 ⟨hm, fun key v hv => ?_⟩, wellFormed_iff.2 ⟨hn, fun key w hw => ?_⟩,
      (same_iff hm hn).2 ⟨fun key => ⟨fun hkey => ?_, fun hkey => ?_⟩, fun key v w hv hw => ?_⟩⟩
    · obtain ⟨w, -, hsame⟩ := exists_of_rel_left (hrel key) hv
      exact hsame.1
    · obtain ⟨v, -, hsame⟩ := exists_of_rel_right (hrel key) hw
      exact hsame.2.1
    · obtain ⟨v, hv⟩ := exists_value?_of_mem_keys hkey
      obtain ⟨w, hw, -⟩ := exists_of_rel_left (hrel key) hv
      exact mem_keys_of_value? hw
    · obtain ⟨w, hw⟩ := exists_value?_of_mem_keys hkey
      obtain ⟨v, hv, -⟩ := exists_of_rel_right (hrel key) hw
      exact mem_keys_of_value? hv
    · obtain ⟨w', hw', hsame⟩ := exists_of_rel_left (hrel key) hv
      obtain rfl := Option.some.inj (hw.symm.trans hw')
      exact hsame.2.2

/-- The same, told by the test for equality. -/
theorem same_iff_rel (hm : (Json.object m).WellFormed) (hn : (Json.object n).WellFormed) :
    m.same n = true ↔
      ∀ key, Option.Rel (fun v w => v.same w = true) (m.value? key) (n.value? key) := by
  constructor
  · intro h key
    exact rel_imp ((same_iff_related.1 ⟨hm, hn, h⟩).value? key) fun _ _ _ _ hvw => hvw.2.2
  · intro h
    refine (same_iff_related.2 ⟨hm.nodup_keys, hn.nodup_keys, fun key => ?_⟩).2.2
    exact rel_imp (h key) fun v w hv hw hvw => ⟨hm.of_value? hv, hn.of_value? hw, hvw⟩

namespace Same

variable (h : m.Same n)

include h

theorem nodup_left : m.keys.Nodup := (same_iff_related.1 h).nodup_left

theorem nodup_right : n.keys.Nodup := (same_iff_related.1 h).nodup_right

theorem value? (key : String) : Option.Rel Json.Same (m.value? key) (n.value? key) :=
  (same_iff_related.1 h).value? key

end Same

end Fields

/-! ## Symmetry and transitivity -/

namespace Json

/-- Equal values are of one kind, with equal parts. -/
inductive SameParts : Json → Json → Prop
  | null : SameParts null null
  | bool (b : Bool) : SameParts (bool b) (bool b)
  | number {n k : Number} (h : n.same k = true) : SameParts (number n) (number k)
  | string (s : String) : SameParts (string s) (string s)
  | array {vs ws : List Json} (h : List.Forall₂ Same vs ws) : SameParts (array vs) (array ws)
  | object {m n : Fields} (h : m.Same n) : SameParts (object m) (object n)

theorem Same.parts {v w : Json} (h : v.Same w) : SameParts v w := by
  have hsame := h.2.2
  cases v <;> cases w <;> simp only [same, beq_iff_eq, Bool.false_eq_true] at hsame
  case null => exact .null
  case bool => exact hsame ▸ .bool _
  case number => exact .number hsame
  case string => exact hsame ▸ .string _
  case array => exact .array (same_array_iff.1 h)
  case object => exact .object h

theorem Same.symm {v w : Json} (h : v.Same w) : w.Same v := by
  induction v using parts_induction generalizing w with
  | array vs ih =>
    cases h.parts with
    | array hvs =>
      refine same_array_iff.2 (((forall₂_mem_left hvs).imp fun v w hvw => ?_).flip)
      exact ih v hvw.1 hvw.2
  | object m ih =>
    cases h.parts with
    | object hmn =>
      refine Fields.same_iff_related.2 ⟨hmn.nodup_right, hmn.nodup_left, fun key => ?_⟩
      exact rel_flip (hmn.value? key) fun v w hv => ih (key, v) (Fields.mem_of_value? hv)
  | plain v harray hobject =>
    cases h.parts with
    | number hn => exact ⟨h.2.1, h.1, Number.same_symm hn⟩
    | array => exact absurd rfl (harray _)
    | object => exact absurd rfl (hobject _)
    | null | bool | string => exact h

theorem Same.trans {u v w : Json} (huv : u.Same v) (hvw : v.Same w) : u.Same w := by
  induction u using parts_induction generalizing v w with
  | array us ih =>
    cases huv.parts with
    | array hus =>
      cases hvw.parts with
      | array hvs =>
        refine same_array_iff.2 (forall₂_comp ?_ (forall₂_mem_left hus) hvs)
        exact fun u v w hu => ih u hu.1 hu.2
  | object m ih =>
    cases huv.parts with
    | object hmn =>
      cases hvw.parts with
      | object hnk =>
        refine Fields.same_iff_related.2 ⟨hmn.nodup_left, hnk.nodup_right, fun key => ?_⟩
        exact rel_trans (hmn.value? key) (hnk.value? key) fun u v w hu =>
          ih (key, u) (Fields.mem_of_value? hu)
  | plain u harray hobject =>
    cases huv.parts with
    | number hn =>
      cases hvw.parts with
      | number hk => exact ⟨huv.1, hvw.2.1, Number.same_trans hn hk⟩
    | array => exact absurd rfl (harray _)
    | object => exact absurd rfl (hobject _)
    | null | bool | string => exact hvw

end Json

/-! ## Fields of equal objects -/

namespace Fields

variable {m n : Fields}

theorem value?_without (m : Fields) (known : List String) (key : String) :
    (m.without known).value? key = if key ∈ known then none else m.value? key := by
  split_ifs with hkey
  · exact value?_eq_none_iff.2 (notMem_keys_without hkey)
  · simp only [value?, without, List.find?_filter]
    congr 2
    funext f
    by_cases hf : f.1 = key <;> simp [hf, hkey]

/-- Without the keys whose values are related otherwise, related objects are equal. -/
theorem Related.without {R : String → Json → Json → Prop} (h : Related R m n)
    {known : List String} (hR : ∀ key, key ∉ known → R key = Json.Same) :
    (m.without known).Same (n.without known) := by
  refine same_iff_related.2 ⟨nodup_keys_without known h.nodup_left,
    nodup_keys_without known h.nodup_right, fun key => ?_⟩
  rw [value?_without, value?_without]
  split_ifs with hkey
  · exact .none
  · exact hR key hkey ▸ h.value? key

theorem Same.without (h : m.Same n) (known : List String) :
    (m.without known).Same (n.without known) :=
  (same_iff_related.1 h).without fun _ _ => rfl

theorem value?_assign_self (m : Fields) (key : String) (value : Json) :
    (assign m key value).value? key = some value := by
  induction m with
  | nil => rw [assign, value?_cons, if_pos rfl]
  | cons f m ih =>
    rw [assign]
    split_ifs with hf
    · rw [value?_cons, if_pos rfl]
    · rw [value?_cons, if_neg hf, ih]

theorem Same.assign (h : m.Same n) (key : String) {v w : Json} (hvw : v.Same w) :
    (assign m key v).Same (assign n key w) := by
  refine same_iff_related.2 ⟨nodup_keys_assign h.nodup_left key v,
    nodup_keys_assign h.nodup_right key w, fun other => ?_⟩
  by_cases hkey : other = key
  · rw [hkey, value?_assign_self, value?_assign_self]
    exact .some hvw
  · rw [value?_assign_of_ne hkey, value?_assign_of_ne hkey]
    exact h.value? other

theorem value?_assignAll (m : Fields) {extra : Fields} (hextra : extra.keys.Nodup) (key : String) :
    (assignAll m extra).value? key = (extra.value? key).or (m.value? key) := by
  induction extra generalizing m with
  | nil => rfl
  | cons f extra ih =>
    rw [keys_cons, List.nodup_cons] at hextra
    rw [assignAll_cons, ih _ hextra.2, value?_cons]
    split_ifs with hkey
    · rw [← hkey, value?_eq_none_iff.2 hextra.1, value?_assign_self]
      rfl
    · rw [value?_assign_of_ne (Ne.symm hkey)]

/-- Fields that are stored replace what is there, whatever their order. -/
theorem Same.assignAll {extra extra' : Fields} (h : m.Same n) (hextra : extra.Same extra') :
    (assignAll m extra).Same (assignAll n extra') := by
  refine same_iff_related.2 ⟨nodup_keys_assignAll h.nodup_left extra,
    nodup_keys_assignAll h.nodup_right extra', fun key => ?_⟩
  rw [value?_assignAll m hextra.nodup_left, value?_assignAll n hextra.nodup_right]
  exact rel_or (hextra.value? key) (h.value? key)

/-- Entries with the same keys in the same order and equal values. -/
theorem same_of_forall₂ {m n : Fields} (hm : m.keys.Nodup)
    (h : List.Forall₂ (fun f g => f.1 = g.1 ∧ f.2.Same g.2) m n) : m.Same n := by
  have hkeys : m.keys = n.keys := map_eq_map_of_forall₂ h fun _ _ hfg => hfg.1
  refine same_iff_related.2 ⟨hm, hkeys ▸ hm, fun key => ?_⟩
  clear hm hkeys
  induction h with
  | nil => exact .none
  | @cons f g _ _ hfg _ ih =>
    rw [value?_cons, value?_cons, hfg.1]
    split_ifs
    · exact .some hfg.2
    · exact ih

/-- Entries that are stored in the same order, also if keys are repeated. -/
theorem same_assignAll_of_forall₂ {es fs : Fields} (h : m.Same n)
    (hentries : List.Forall₂ (fun f g => f.1 = g.1 ∧ f.2.Same g.2) es fs) :
    (Fields.assignAll m es).Same (Fields.assignAll n fs) := by
  induction hentries generalizing m n with
  | nil => exact h
  | @cons f g es fs hfg _ ih =>
    rw [assignAll_cons, assignAll_cons, hfg.1]
    exact ih (h.assign g.1 hfg.2)

end Fields

end HdlInterface
