import HdlInterface.Proofs.Json.Fields

/-!
# Parts of values

A property at every depth, and the nesting depth, of an array or an object in terms of its parts.
Both survive every operation on fields: selection keeps some of the parts, and assignment keeps
the parts of either side.
-/

namespace HdlInterface

namespace Json

/-! ## Properties at every depth -/

theorem itemsAll_iff {p : Json → Bool} {items : List Json} :
    itemsAll p items ↔ ∀ v ∈ items, v.all p := by
  induction items with
  | nil => simp [itemsAll]
  | cons v items ih => simp [itemsAll, ih]

theorem fieldsAll_iff {p : Json → Bool} {m : Fields} :
    fieldsAll p m ↔ ∀ f ∈ m, f.2.all p := by
  induction m with
  | nil => simp [fieldsAll]
  | cons f m ih => simp [fieldsAll, ih]

theorem all_array {p : Json → Bool} {items : List Json} :
    (array items).all p ↔ p (array items) ∧ ∀ v ∈ items, v.all p := by
  rw [all, Bool.and_eq_true, itemsAll_iff]

theorem all_object {p : Json → Bool} {m : Fields} :
    (object m).all p ↔ p (object m) ∧ ∀ f ∈ m, f.2.all p := by
  rw [all, Bool.and_eq_true, fieldsAll_iff]

theorem all_of_value? {p : Json → Bool} {m : Fields} {key : String} {v : Json}
    (hm : (object m).all p) (h : m.value? key = some v) : v.all p :=
  (all_object.1 hm).2 _ (Fields.mem_of_value? h)

theorem WellFormed.nodup_keys {m : Fields} (h : (object m).WellFormed) : m.keys.Nodup := by
  simpa [distinctKeys] using (all_object.1 h).1

theorem WellFormed.of_value? {m : Fields} {key : String} {v : Json} (hm : (object m).WellFormed)
    (h : m.value? key = some v) : v.WellFormed :=
  all_of_value? hm h

/-! ### Properties of documents -/

/-- A document that is written holds no doubles of its own and repeats no key, so `p` has to hold
of such values; and it has to outlive the removal of fields. -/
structure Lenient (p : Json → Bool) : Prop where
  plain : ∀ v, v.distinctKeys → v.notDouble → p v
  without : ∀ (m : Fields) (known : List String), p (object m) → p (object (m.without known))

theorem lenient_distinctKeys : Lenient distinctKeys where
  plain _ h _ := h
  without m known h := by
    have hm : m.keys.Nodup := by simpa [distinctKeys] using h
    simpa [distinctKeys] using Fields.nodup_keys_without known hm

theorem lenient_notDouble : Lenient notDouble where
  plain _ _ h := h
  without _ _ _ := rfl

namespace Lenient

variable {p : Json → Bool} (hp : Lenient p)

include hp

theorem null : Json.null.all p := hp.plain _ rfl rfl

theorem string (s : String) : (Json.string s).all p := hp.plain _ rfl rfl

theorem integer (n : Integer) : (Json.number (.integer n)).all p := hp.plain _ rfl rfl

theorem array {items : List Json} (h : ∀ v ∈ items, v.all p) : (Json.array items).all p :=
  all_array.2 ⟨hp.plain _ rfl rfl, h⟩

theorem object {m : Fields} (hm : m.keys.Nodup) (h : ∀ f ∈ m, f.2.all p) :
    (Json.object m).all p :=
  all_object.2 ⟨hp.plain _ (by simpa [distinctKeys] using hm) rfl, h⟩

/-- The fields that are kept besides those with a meaning. -/
theorem object_without {m : Fields} (known : List String) (h : (Json.object m).all p) :
    (Json.object (m.without known)).all p := by
  obtain ⟨hkeys, hparts⟩ := all_object.1 h
  exact all_object.2 ⟨hp.without m known hkeys, fun f hf => hparts f (Fields.mem_without.1 hf).1⟩

theorem object_assignAll {m extra : Fields} (hkeys : m.keys.Nodup) (hm : ∀ f ∈ m, f.2.all p)
    (hextra : ∀ f ∈ extra, f.2.all p) : (Json.object (m.assignAll extra)).all p := by
  refine hp.object (Fields.nodup_keys_assignAll hkeys extra) fun f hf => ?_
  rcases Fields.mem_assignAll hf with hf | hf
  · exact hm f hf
  · exact hextra f hf

end Lenient

/-! ## Depth -/

theorem itemsDepth_cons_le_iff {v : Json} {items : List Json} {n : Nat} :
    itemsDepth (v :: items) ≤ n ↔ v.depth ≤ n ∧ itemsDepth items ≤ n :=
  Nat.max_le

theorem fieldsDepth_cons_le_iff {f : String × Json} {m : Fields} {n : Nat} :
    fieldsDepth (f :: m) ≤ n ↔ f.2.depth ≤ n ∧ fieldsDepth m ≤ n :=
  Nat.max_le

theorem itemsDepth_le_iff {items : List Json} {n : Nat} :
    itemsDepth items ≤ n ↔ ∀ v ∈ items, v.depth ≤ n := by
  induction items with
  | nil => simp [itemsDepth]
  | cons v items ih => simp [itemsDepth_cons_le_iff, ih]

theorem fieldsDepth_le_iff {m : Fields} {n : Nat} :
    fieldsDepth m ≤ n ↔ ∀ f ∈ m, f.2.depth ≤ n := by
  induction m with
  | nil => simp [fieldsDepth]
  | cons f m ih => simp [fieldsDepth_cons_le_iff, ih]

theorem depth_le_itemsDepth {items : List Json} {v : Json} (h : v ∈ items) :
    v.depth ≤ itemsDepth items :=
  itemsDepth_le_iff.1 (Nat.le_refl _) v h

theorem depth_le_fieldsDepth {m : Fields} {f : String × Json} (h : f ∈ m) :
    f.2.depth ≤ fieldsDepth m :=
  fieldsDepth_le_iff.1 (Nat.le_refl _) f h

theorem depth_value?_le {m : Fields} {key : String} {v : Json} (h : m.value? key = some v) :
    v.depth ≤ fieldsDepth m :=
  depth_le_fieldsDepth (Fields.mem_of_value? h)

theorem fieldsDepth_without_le (m : Fields) (known : List String) :
    fieldsDepth (m.without known) ≤ fieldsDepth m :=
  fieldsDepth_le_iff.2 fun _ hf => depth_le_fieldsDepth (Fields.mem_without.1 hf).1

theorem depth_assignAll_le (m extra : Fields) :
    (object (m.assignAll extra)).depth ≤ 1 + max (fieldsDepth m) (fieldsDepth extra) := by
  rw [depth]
  refine Nat.add_le_add_left (fieldsDepth_le_iff.2 fun f hf => ?_) 1
  rcases Fields.mem_assignAll hf with hf | hf
  · exact Nat.le_trans (depth_le_fieldsDepth hf) (Nat.le_max_left ..)
  · exact Nat.le_trans (depth_le_fieldsDepth hf) (Nat.le_max_right ..)

end Json

end HdlInterface
