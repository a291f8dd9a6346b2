import Mathlib.Data.List.Nodup
import HdlInterface.Document.Field

/-!
# Fields of objects

How look-up, assignment and selection act on the fields of an object. New keys go to the end
(`assignAll_of_disjoint`), no assignment makes a key occur twice (`nodup_keys_assignAll`), and
without repeated keys a look-up finds exactly the fields of the object (`value?_eq_some_iff`).
-/

namespace HdlInterface

namespace Fields

/-! ## Keys -/

@[simp] theorem keys_nil : keys [] = [] := rfl

@[simp] theorem keys_cons (f : String × Json) (m : Fields) : keys (f :: m) = f.1 :: keys m := rfl

@[simp] theorem keys_append (m n : Fields) : keys (m ++ n) = keys m ++ keys n :=
  List.map_append

theorem mem_keys_iff {m : Fields} {key : String} : key ∈ m.keys ↔ ∃ v, (key, v) ∈ m := by
  simp [keys]

/-! ## Look-up -/

@[simp] theorem value?_nil (key : String) : value? [] key = none := rfl

theorem value?_cons (f : String × Json) (m : Fields) (key : String) :
    value? (f :: m) key = if f.1 = key then some f.2 else value? m key := by
  by_cases h : f.1 = key <;> simp [value?, h]

theorem value?_eq_none_iff {m : Fields} {key : String} : value? m key = none ↔ key ∉ m.keys := by
  induction m with
  | nil => simp
  | cons f m ih =>
      by_cases h : f.1 = key
      · simp [value?_cons, h]
      · simp [value?_cons, h, ih, Ne.symm h]

theorem mem_keys_of_value? {m : Fields} {key : String} {v : Json} (h : value? m key = some v) :
    key ∈ m.keys :=
  mem_keys_iff.2 ⟨v, mem_of_value? h⟩

theorem exists_value?_of_mem_keys {m : Fields} {key : String} (h : key ∈ m.keys) :
    ∃ v, value? m key = some v := by
  cases e : value? m key with
  | none => exact absurd h (value?_eq_none_iff.1 e)
  | some v => exact ⟨v, rfl⟩

theorem value?_eq_some_iff {m : Fields} (hm : m.keys.Nodup) {key : String} {v : Json} :
    value? m key = some v ↔ (key, v) ∈ m := by
  refine ⟨mem_of_value?, fun h => ?_⟩
  induction m with
  | nil => cases h
  | cons f m ih =>
      rw [keys_cons, List.nodup_cons] at hm
      rw [value?_cons]
      rcases List.mem_cons.1 h with rfl | h
      · simp
      · have hne : f.1 ≠ key := fun e => hm.1 (e ▸ mem_keys_iff.2 ⟨v, h⟩)
        rw [if_neg hne]
        exact ih hm.2 h

/-! ## Selection -/

theorem mem_without {m : Fields} {known : List String} {f : String × Json} :
    f ∈ m.without known ↔ f ∈ m ∧ f.1 ∉ known := by
  simp [without]

theorem keys_without (m : Fields) (known : List String) :
    (m.without known).keys = m.keys.filter fun key => !known.contains key := by
  simp [keys, without, List.filter_map, Function.comp_def]

theorem notMem_keys_without {m : Fields} {known : List String} {key : String} (h : key ∈ known) :
    key ∉ (m.without known).keys := by
  simp [keys_without, h]

theorem nodup_keys_without {m : Fields} (known : List String) (hm : m.keys.Nodup) :
    (m.without known).keys.Nodup := by
  rw [keys_without]
  exact hm.filter _

theorem without_append (m n : Fields) (known : List String) :
    (m ++ n : Fields).without known = m.without known ++ n.without known :=
  List.filter_append ..

theorem without_eq_nil {m : Fields} {known : List String} (h : ∀ key ∈ m.keys, key ∈ known) :
    m.without known = [] := by
  rw [without, List.filter_eq_nil_iff]
  intro f hf
  simpa using h f.1 (mem_keys_iff.2 ⟨f.2, hf⟩)

theorem without_eq_self {m : Fields} {known : List String} (h : ∀ key ∈ known, key ∉ m.keys) :
    m.without known = m := by
  rw [without, List.filter_eq_self]
  intro f hf
  have : f.1 ∉ known := fun hk => h f.1 hk (mem_keys_iff.2 ⟨f.2, hf⟩)
  simpa using this

/-! ## Assignment -/

theorem assign_of_notMem {m : Fields} {key : String} (h : key ∉ m.keys) (value : Json) :
    assign m key value = m ++ [(key, value)] := by
  induction m with
  | nil => rfl
  | cons f m ih =>
      rw [keys_cons, List.mem_cons, not_or] at h
      rw [assign, if_neg (Ne.symm h.1), ih h.2, List.cons_append]

theorem keys_assign (m : Fields) (key : String) (value : Json) :
    (assign m key value).keys = if key ∈ m.keys then m.keys else m.keys ++ [key] := by
  induction m with
  | nil => simp [assign]
  | cons f m ih =>
      by_cases h : f.1 = key
      · simp [assign, h]
      · rw [assign, if_neg h, keys_cons, ih]
        by_cases hk : key ∈ keys m <;> simp [hk, Ne.symm h]

theorem nodup_keys_assign {m : Fields} (hm : m.keys.Nodup) (key : String) (value : Json) :
    (assign m key value).keys.Nodup := by
  rw [keys_assign]
  split_ifs with h
  · exact hm
  · rw [List.nodup_append]
    exact ⟨hm, List.nodup_singleton _, fun a ha b hb e => h (by simp_all)⟩

theorem mem_assign {m : Fields} {key : String} {value : Json} {f : String × Json}
    (h : f ∈ assign m key value) : f = (key, value) ∨ f ∈ m := by
  induction m with
  | nil => exact .inl (List.mem_singleton.1 h)
  | cons g m ih =>
      rw [assign] at h
      split_ifs at h with hg
      · rcases List.mem_cons.1 h with h | h
        · exact .inl h
        · exact .inr (List.mem_cons_of_mem _ h)
      · rcases List.mem_cons.1 h with rfl | h
        · exact .inr List.mem_cons_self
        · exact (ih h).imp_right (List.mem_cons_of_mem _)

theorem assignAll_cons (m : Fields) (f : String × Json) (extra : Fields) :
    assignAll m (f :: extra) = assignAll (assign m f.1 f.2) extra := rfl

theorem assignAll_of_disjoint {m extra : Fields} (hextra : extra.keys.Nodup)
    (h : ∀ key ∈ m.keys, key ∉ extra.keys) : assignAll m extra = m ++ extra := by
  induction extra generalizing m with
  | nil => simp [assignAll]
  | cons f extra ih =>
      rw [keys_cons, List.nodup_cons] at hextra
      have hf : f.1 ∉ m.keys := fun hm => h _ hm (by simp)
      rw [assignAll_cons, assign_of_notMem hf, ih hextra.2]
      · simp
      · intro key hkey
        rw [keys_append, List.mem_append] at hkey
        rcases hkey with hkey | hkey
        · exact fun hmem => h key hkey (List.mem_cons_of_mem _ hmem)
        · rw [List.mem_singleton.1 hkey]
          exact hextra.1

theorem assignAll_nil_of_nodup {m : Fields} (h : m.keys.Nodup) : assignAll [] m = m :=
  assignAll_of_disjoint h nofun

theorem nodup_keys_assignAll {m : Fields} (hm : m.keys.Nodup) (extra : Fields) :
    (assignAll m extra).keys.Nodup := by
  induction extra generalizing m with
  | nil => exact hm
  | cons f extra ih => exact ih (nodup_keys_assign hm _ _)

theorem mem_assignAll {m extra : Fields} {f : String × Json} (h : f ∈ assignAll m extra) :
    f ∈ m ∨ f ∈ extra := by
  induction extra generalizing m with
  | nil => exact .inl h
  | cons g extra ih =>
      rcases ih h with h | h
      · rcases mem_assign h with rfl | h
        · exact .inr List.mem_cons_self
        · exact .inl h
      · exact .inr (List.mem_cons_of_mem _ h)

theorem value?_assign_of_ne {m : Fields} {key other : String} (h : other ≠ key) (value : Json) :
    value? (assign m key value) other = value? m other := by
  induction m with
  | nil => rw [assign, value?_cons, if_neg h.symm]
  | cons f m ih =>
      rw [assign]
      split_ifs with hf
      · rw [value?_cons, value?_cons, if_neg h.symm, if_neg (hf ▸ h.symm)]
      · rw [value?_cons, value?_cons, ih]

/-- Fields that are stored later leave those under other keys as they are. -/
theorem value?_assignAll_of_notMem {m extra : Fields} {key : String} (h : key ∉ extra.keys) :
    value? (assignAll m extra) key = value? m key := by
  induction extra generalizing m with
  | nil => rfl
  | cons f extra ih =>
      rw [keys_cons, List.mem_cons, not_or] at h
      rw [assignAll_cons, ih h.2, value?_assign_of_ne h.1]

/-! ## Fields besides those with a meaning -/

/-- None of the fields has one of these keys. -/
def Avoids (m : Fields) (known : List String) : Prop := ∀ key ∈ known, key ∉ m.keys

instance (m : Fields) (known : List String) : Decidable (m.Avoids known) :=
  inferInstanceAs (Decidable (∀ key ∈ known, key ∉ m.keys))

theorem avoids_without (m : Fields) (known : List String) : (m.without known).Avoids known :=
  fun _ hkey => notMem_keys_without hkey

theorem assignAll_of_avoids {m extra : Fields} {known : List String} (hm : m.keys = known)
    (hextra : extra.keys.Nodup) (h : extra.Avoids known) : assignAll m extra = m ++ extra :=
  assignAll_of_disjoint hextra (hm ▸ h)

theorem without_append_of_avoids {m extra : Fields} {known : List String} (hm : m.keys = known)
    (h : extra.Avoids known) : (m ++ extra : Fields).without known = extra := by
  rw [without_append, without_eq_nil fun _ hkey => hm ▸ hkey, without_eq_self h, List.nil_append]

end Fields

end HdlInterface
