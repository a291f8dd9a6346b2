import Mathlib.Data.List.Perm.Subperm
import HdlInterface.Proofs.Document.Field

/-!
# Equality up to the order of fields

Objects without repeated keys are equal if they have the same keys, in any order, and equal values
under each (`Fields.same_iff`). A value in which no object repeats a key is equal to itself.
-/

namespace HdlInterface

namespace Json

/-! ## Items and fields -/

theorem sameItems_iff {vs ws : List Json} :
    sameItems vs ws = true ↔ List.Forall₂ (fun v w => v.same w = true) vs ws := by
  induction vs generalizing ws with
  | nil => cases ws <;> simp [sameItems]
  | cons v vs ih => cases ws <;> simp [sameItems, ih]

theorem sameFields_iff {m n : Fields} : sameFields m n = true ↔
    ∀ f ∈ m, ∃ w, n.value? f.1 = some w ∧ f.2.same w = true := by
  induction m with
  | nil => simp [sameFields]
  | cons f m ih =>
      rw [sameFields, Bool.and_eq_true, ih, List.forall_mem_cons]
      cases n.value? f.1 <;> simp

theorem same_string {s t : String} : (string s).same (string t) = true ↔ s = t := by
  rw [same, beq_iff_eq]

theorem same_string_array {s : String} {vs : List Json} : (string s).same (array vs) = false := rfl

theorem same_integer {n k : Integer} :
    (number (.integer n)).same (number (.integer k)) = true ↔ n = k := by
  simp [same, Number.same]

theorem same_array {vs ws : List Json} : (array vs).same (array ws) = true ↔
    List.Forall₂ (fun v w => v.same w = true) vs ws := by
  rw [same, sameItems_iff]

theorem same_object {m n : Fields} : (object m).same (object n) = true ↔
    m.length = n.length ∧ ∀ f ∈ m, ∃ w, n.value? f.1 = some w ∧ f.2.same w = true := by
  simp only [same, Bool.and_eq_true, beq_iff_eq, sameFields_iff]

end Json

/-! ## Objects -/

namespace Fields

variable {m n : Fields}

/-- Objects that are equal have the same keys. -/
theorem mem_keys_iff_of_same (hm : m.keys.Nodup) (h : m.same n = true) (key : String) :
    key ∈ m.keys ↔ key ∈ n.keys := by
  obtain ⟨hlength, hfields⟩ := Json.same_object.1 h
  have hsubset : m.keys ⊆ n.keys := by
    intro k hk
    obtain ⟨v, hv⟩ := mem_keys_iff.1 hk
    obtain ⟨w, hw, -⟩ := hfields _ hv
    exact mem_keys_of_value? hw
  have hperm : m.keys.Perm n.keys :=
    (List.subperm_of_subset hm hsubset).perm_of_length_le (by simp [keys, hlength])
  exact hperm.mem_iff

theorem same_iff (hm : m.keys.Nodup) (hn : n.keys.Nodup) : m.same n = true ↔
    (∀ key, key ∈ m.keys ↔ key ∈ n.keys) ∧
      ∀ key v w, m.value? key = some v → n.value? key = some w → v.same w = true := by
  constructor
  · intro h
    refine ⟨mem_keys_iff_of_same hm h, fun key v w hv hw => ?_⟩
    obtain ⟨w', hw', hsame⟩ := (Json.same_object.1 h).2 _ (mem_of_value? hv)
    rw [hw] at hw'
    cases hw'
    exact hsame
  · rintro ⟨hkeys, hvalues⟩
    have hperm : m.keys.Perm n.keys := (List.perm_ext_iff_of_nodup hm hn).2 hkeys
    have hlength : m.length = n.length := by simpa [keys] using hperm.length_eq
    refine Json.same_object.2 ⟨hlength, fun f hf => ?_⟩
    obtain ⟨w, hw⟩ := exists_value?_of_mem_keys ((hkeys f.1).1 (mem_keys_iff.2 ⟨f.2, hf⟩))
    exact ⟨w, hw, hvalues f.1 f.2 w ((value?_eq_some_iff hm).2 hf) hw⟩

end Fields

/-! ## Reflexivity -/

theorem Number.same_refl (n : Number) : n.same n = true := by
  cases n with
  | integer n => simp [same]
  | double x => exact x.same_refl

namespace Json

mutual

theorem same_refl : (v : Json) → v.WellFormed → v.same v = true
  | null, _ => rfl
  | bool _, _ => by simp [same]
  | number n, _ => n.same_refl
  | string _, _ => by simp [same]
  | array items, h => same_array.2 (forall₂_same_refl items (all_array.1 h).2)
  | object m, h => by
      refine same_object.2 ⟨rfl, fun f hf => ⟨f.2, ?_, fields_same_refl m (all_object.1 h).2 f hf⟩⟩
      exact (Fields.value?_eq_some_iff h.nodup_keys).2 hf

theorem forall₂_same_refl : (items : List Json) → (∀ v ∈ items, v.WellFormed) →
    List.Forall₂ (fun v w => v.same w = true) items items
  | [], _ => .nil
  | v :: items, h => by
      rw [List.forall_mem_cons] at h
      exact .cons (same_refl v h.1) (forall₂_same_refl items h.2)

theorem fields_same_refl : (m : List (String × Json)) → (∀ f ∈ m, f.2.WellFormed) →
    ∀ f ∈ m, f.2.same f.2 = true
  | [], _ => nofun
  | (k, v) :: m, h => by
      rw [List.forall_mem_cons] at h ⊢
      exact ⟨same_refl v h.1, fields_same_refl m h.2⟩

end

end Json

/-! ## Objects that are written anew -/

namespace Fields

/-- The object has these keys and no others. -/
def HasExactly (m : Fields) (keys : List String) : Prop := ∀ key, key ∈ m.keys ↔ key ∈ keys

theorem same_iff_hasExactly {w m : Fields} (hw : w.keys.Nodup) (hm : m.keys.Nodup) :
    w.same m = true ↔ m.HasExactly w.keys ∧
      ∀ f ∈ w, ∀ v, m.value? f.1 = some v → f.2.same v = true := by
  rw [same_iff hw hm]
  constructor
  · rintro ⟨hkeys, hvalues⟩
    exact ⟨fun key => (hkeys key).symm,
      fun f hf v hv => hvalues f.1 f.2 v ((value?_eq_some_iff hw).2 hf) hv⟩
  · rintro ⟨hkeys, hvalues⟩
    exact ⟨fun key => (hkeys key).symm,
      fun key v u hv hu => hvalues (key, v) (mem_of_value? hv) u hu⟩

/-- Fields with a meaning are written first, and the others follow as they are. Only the former
can make a difference. -/
theorem same_append_without_iff {base m : Fields} {known : List String}
    (hbase : base.keys = known) (hknown : known.Nodup) (hm : (Json.object m).WellFormed) :
    (base ++ m.without known : Fields).same m = true ↔ (∀ key ∈ known, key ∈ m.keys) ∧
      ∀ f ∈ base, ∀ v, m.value? f.1 = some v → f.2.same v = true := by
  have hnodup : (base ++ m.without known : Fields).keys.Nodup := by
    rw [keys_append, hbase, List.nodup_append]
    refine ⟨hknown, nodup_keys_without known hm.nodup_keys, ?_⟩
    rintro a ha b hb rfl
    exact notMem_keys_without ha hb
  rw [same_iff_hasExactly hnodup hm.nodup_keys, keys_append, hbase, List.forall_mem_append]
  have hkeys : m.HasExactly (known ++ (m.without known).keys) ↔ ∀ key ∈ known, key ∈ m.keys := by
    constructor
    · exact fun h key hkey => (h key).2 (List.mem_append_left _ hkey)
    · intro h key
      by_cases hkey : key ∈ known
      · simp [hkey, h key hkey]
      · simp [keys_without, hkey]
  have hrest : ∀ f ∈ m.without known, ∀ v, m.value? f.1 = some v → f.2.same v = true := by
    intro f hf v hv
    have hmem := (mem_without.1 hf).1
    rw [(value?_eq_some_iff hm.nodup_keys).2 hmem] at hv
    cases hv
    exact f.2.same_refl ((Json.all_object.1 hm).2 f hmem)
  rw [hkeys]
  exact and_congr_right fun _ => and_iff_left hrest

/-- Objects with the same keys in the same order are equal if they agree entry by entry. -/
theorem same_iff_forall₂ {m n : Fields} (hn : n.keys.Nodup)
    (hkeys : List.Forall₂ (fun f g => f.1 = g.1) m n) : (Json.object m).same (.object n) = true ↔
      List.Forall₂ (fun f g : String × Json => f.2.same g.2 = true) m n := by
  rw [Json.same_object]
  constructor
  · rintro ⟨-, hsame⟩
    refine (forall₂_mem_right (forall₂_mem_left hkeys)).imp fun f g ⟨hg, hf, hkey⟩ => ?_
    obtain ⟨w, hw, hfw⟩ := hsame f hf
    rw [hkey, (value?_eq_some_iff hn).2 hg] at hw
    cases hw
    exact hfw
  · intro hsame
    refine ⟨hkeys.length_eq, fun f hf => ?_⟩
    obtain ⟨g, hg, hkey, hfg⟩ := exists_of_mem_left (forall₂_and hkeys hsame) hf
    exact ⟨g.2, hkey ▸ (value?_eq_some_iff hn).2 hg, hfg⟩

end Fields

end HdlInterface
