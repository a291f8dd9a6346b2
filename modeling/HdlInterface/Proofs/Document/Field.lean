import Mathlib.Data.List.Forall2
import HdlInterface.Document.Field
import HdlInterface.Proofs.Json.Parts

/-!
# Readers and writers of fields

When the readers of single fields, lists and sections succeed, and with what; what the writers of
lists and sections produce; and how a list or a section that was written is read back
(`list_of_ofList`, `keyed_of_ofKeyed`).
-/

namespace HdlInterface

/-! ## Failing computations -/

section Except

variable {ε α β : Type}

theorem ok_bind (a : α) (f : α → Except ε β) : (Except.ok a >>= f) = f a := rfl

theorem bind_eq_ok_iff {x : Except ε α} {f : α → Except ε β} {b : β} :
    (x >>= f) = .ok b ↔ ∃ a, x = .ok a ∧ f a = .ok b := by
  cases x with
  | error e => simp [bind, Except.bind]
  | ok a => simp [bind, Except.bind]

theorem pure_eq_ok_iff {a b : α} : (pure a : Except ε α) = .ok b ↔ a = b := by
  simp [pure, Except.pure]

theorem mapM_eq_ok_iff {f : α → Except ε β} {xs : List α} {ys : List β} :
    xs.mapM f = .ok ys ↔ List.Forall₂ (fun x y => f x = .ok y) xs ys := by
  induction xs generalizing ys with
  | nil =>
      rw [List.mapM_nil, pure_eq_ok_iff, List.forall₂_nil_left_iff]
      exact eq_comm
  | cons x xs ih =>
      rw [List.mapM_cons, bind_eq_ok_iff, List.forall₂_cons_left_iff]
      constructor
      · rintro ⟨y, hy, h⟩
        obtain ⟨zs, hzs, h⟩ := bind_eq_ok_iff.1 h
        exact ⟨y, zs, hy, ih.1 hzs, (pure_eq_ok_iff.1 h).symm⟩
      · rintro ⟨y, zs, hy, hzs, rfl⟩
        exact ⟨y, hy, bind_eq_ok_iff.2 ⟨zs, ih.2 hzs, rfl⟩⟩

end Except

/-! ## Lists related one by one -/

section Related

variable {α β γ : Type} {R : α → β → Prop} {S : β → γ → Prop} {T : α → γ → Prop}

theorem forall₂_comp (h : ∀ a b c, R a b → S b c → T a c) {xs : List α} {ys : List β}
    {zs : List γ} (hxy : List.Forall₂ R xs ys) (hyz : List.Forall₂ S ys zs) :
    List.Forall₂ T xs zs := by
  induction hxy generalizing zs with
  | nil =>
      cases hyz
      exact .nil
  | cons hab _ ih =>
      cases hyz with
      | cons hbc hyz => exact .cons (h _ _ _ hab hbc) (ih hyz)

theorem forall₂_mem_left {xs : List α} {ys : List β} (h : List.Forall₂ R xs ys) :
    List.Forall₂ (fun a b => a ∈ xs ∧ R a b) xs ys :=
  (List.forall₂_and_left _ _).2 ⟨fun _ ha => ha, h⟩

theorem forall₂_mem_right {xs : List α} {ys : List β} (h : List.Forall₂ R xs ys) :
    List.Forall₂ (fun a b => b ∈ ys ∧ R a b) xs ys :=
  (forall₂_mem_left h.flip).flip

theorem forall₂_and {P : α → β → Prop} {xs : List α} {ys : List β} (h : List.Forall₂ R xs ys)
    (h' : List.Forall₂ P xs ys) : List.Forall₂ (fun a b => R a b ∧ P a b) xs ys := by
  induction h with
  | nil => exact .nil
  | cons hab _ ih =>
      cases h' with
      | cons hab' h' => exact .cons ⟨hab, hab'⟩ (ih h')

theorem exists_of_mem_right {xs : List α} {ys : List β} (h : List.Forall₂ R xs ys) {b : β}
    (hb : b ∈ ys) : ∃ a ∈ xs, R a b := by
  induction h with
  | nil => cases hb
  | cons hab _ ih =>
      rcases List.mem_cons.1 hb with rfl | hb
      · exact ⟨_, List.mem_cons_self, hab⟩
      · obtain ⟨a, ha, hab⟩ := ih hb
        exact ⟨a, List.mem_cons_of_mem _ ha, hab⟩

theorem exists_of_mem_left {xs : List α} {ys : List β} (h : List.Forall₂ R xs ys) {a : α}
    (ha : a ∈ xs) : ∃ b ∈ ys, R a b := by
  induction h with
  | nil => cases ha
  | cons hab _ ih =>
      rcases List.mem_cons.1 ha with rfl | ha
      · exact ⟨_, List.mem_cons_self, hab⟩
      · obtain ⟨b, hb, hab⟩ := ih ha
        exact ⟨b, List.mem_cons_of_mem _ hb, hab⟩

theorem exists_forall₂ {xs : List α} (h : ∀ a ∈ xs, ∃ b, R a b) :
    ∃ ys, List.Forall₂ R xs ys := by
  induction xs with
  | nil => exact ⟨[], .nil⟩
  | cons a xs ih =>
      obtain ⟨b, hb⟩ := h a List.mem_cons_self
      obtain ⟨ys, hys⟩ := ih fun c hc => h c (List.mem_cons_of_mem _ hc)
      exact ⟨b :: ys, .cons hb hys⟩

theorem map_eq_map_of_forall₂ {f : α → γ} {g : β → γ} {xs : List α} {ys : List β}
    (h : List.Forall₂ R xs ys) (hfg : ∀ a b, R a b → f a = g b) : xs.map f = ys.map g := by
  induction h with
  | nil => rfl
  | cons hab _ ih => rw [List.map_cons, List.map_cons, hfg _ _ hab, ih]

theorem map_eq_self_iff {f : α → α} {xs : List α} : xs.map f = xs ↔ ∀ x ∈ xs, f x = x := by
  induction xs with
  | nil => simp
  | cons x xs ih => simp [ih]

end Related

/-! ## Single fields -/

namespace Fields

variable {m : Fields} {key : String}

theorem require_eq_ok_iff {v : Json} : m.require key = .ok v ↔ m.value? key = some v := by
  unfold require
  split <;> simp_all

theorem text_eq_ok_iff {s : String} : m.text key = .ok s ↔ m.value? key = some (.string s) := by
  rw [text, bind_eq_ok_iff]
  constructor
  · rintro ⟨v, hv, h⟩
    cases v <;> cases h
    exact require_eq_ok_iff.1 hv
  · intro h
    exact ⟨_, require_eq_ok_iff.2 h, rfl⟩

theorem object_eq_ok_iff {n : Fields} : m.object key = .ok n ↔ m.value? key = some (.object n) := by
  rw [object, bind_eq_ok_iff]
  constructor
  · rintro ⟨v, hv, h⟩
    cases v <;> cases h
    exact require_eq_ok_iff.1 hv
  · intro h
    exact ⟨_, require_eq_ok_iff.2 h, rfl⟩

theorem array_eq_ok_iff {items : List Json} :
    m.array key = .ok items ↔ m.value? key = some (.array items) := by
  rw [array, bind_eq_ok_iff]
  constructor
  · rintro ⟨v, hv, h⟩
    cases v <;> cases h
    exact require_eq_ok_iff.1 hv
  · intro h
    exact ⟨_, require_eq_ok_iff.2 h, rfl⟩

theorem fieldsAt_eq_ok_iff {v : Json} {n : Fields} : v.fieldsAt key = .ok n ↔ v = .object n := by
  cases v <;> simp [Json.fieldsAt]

theorem present?_eq_none_iff :
    m.present? key = none ↔ m.value? key = none ∨ m.value? key = some .null := by
  unfold present?
  split
  · next h => simp [h]
  · next h =>
      constructor
      · exact .inl
      · exact fun hv => hv.resolve_right h

theorem present?_eq_some_iff {v : Json} :
    m.present? key = some v ↔ m.value? key = some v ∧ v ≠ .null := by
  unfold present?
  split
  · next h =>
      rw [h]
      constructor
      · nofun
      · rintro ⟨hv, hne⟩
        exact absurd (Option.some.inj hv).symm hne
  · next h =>
      constructor
      · intro hv
        exact ⟨hv, fun hnull => h (hnull ▸ hv)⟩
      · exact fun hv => hv.1

/-! ### Sizes -/

theorem sizeOf_of_object {n : Fields} (h : m.object key = .ok n) : sizeOf n < sizeOf m := by
  have hvalue := sizeOf_value? (object_eq_ok_iff.1 h)
  rw [Json.object.sizeOf_spec] at hvalue
  omega

theorem sizeOf_of_mem_array {items : List Json} {n : Fields} (h : m.array key = .ok items)
    (hn : .object n ∈ items) : sizeOf n < sizeOf m := by
  have hitem := List.sizeOf_lt_of_mem hn
  have hlist := sizeOf_value? (array_eq_ok_iff.1 h)
  simp only [Json.object.sizeOf_spec, Json.array.sizeOf_spec] at hitem hlist
  omega

theorem sizeOf_of_present {n : Fields} (h : m.present? key = some (.object n)) :
    sizeOf n < sizeOf m := by
  have hvalue := sizeOf_present? h
  rw [Json.object.sizeOf_spec] at hvalue
  omega

end Fields

/-! ## Lists and sections -/

section Lists

variable {α : Type} {read : Fields → Except DocumentError α}
  {write : α → Except DocumentError Fields} {name : α → String} {m : Fields} {key : String}

theorem list_eq_ok_iff {xs : List α} :
    m.list read key = .ok xs ↔ ∃ items, m.value? key = some (.array items) ∧
      List.Forall₂ (fun v x => ∃ n, v = .object n ∧ read n = .ok x) items xs := by
  simp only [Fields.list, bind_eq_ok_iff, Fields.array_eq_ok_iff, mapM_eq_ok_iff,
    Fields.fieldsAt_eq_ok_iff]

theorem ofList_eq_ok_iff {xs : List α} {v : Json} :
    Json.ofList write xs = .ok v ↔ ∃ items, v = .array items ∧
      List.Forall₂ (fun x w => ∃ n, w = .object n ∧ write x = .ok n) xs items := by
  simp only [Json.ofList, bind_eq_ok_iff, mapM_eq_ok_iff, pure_eq_ok_iff]
  constructor
  · rintro ⟨ns, hns, rfl⟩
    refine ⟨_, rfl, List.forall₂_map_right_iff.2 (hns.imp fun x n h => ⟨n, rfl, h⟩)⟩
  · rintro ⟨items, rfl, hitems⟩
    induction hitems with
    | nil => exact ⟨[], .nil, rfl⟩
    | cons h _ ih =>
        obtain ⟨n, rfl, hn⟩ := h
        obtain ⟨ns, hns, hv⟩ := ih
        exact ⟨n :: ns, .cons hn hns, by rw [List.map_cons, (Json.array.inj hv)]⟩

theorem keyed_eq_ok_iff {xs : List α} :
    m.keyed read name key = .ok xs ↔ ∃ entries, m.value? key = some (.object entries) ∧
      List.Forall₂ (fun f x => ∃ n, f = (name x, .object n) ∧ read n = .ok x) entries xs := by
  have hentry : ∀ (f : String × Json) (x : α), Fields.entry read name key f = .ok x ↔
      ∃ n, f = (name x, .object n) ∧ read n = .ok x := by
    rintro ⟨k, v⟩ x
    simp only [Fields.entry, bind_eq_ok_iff, Fields.fieldsAt_eq_ok_iff]
    constructor
    · rintro ⟨n, rfl, y, hy, h⟩
      split_ifs at h with hname
      · obtain rfl := pure_eq_ok_iff.1 h
        exact ⟨n, by rw [hname], hy⟩
    · rintro ⟨n, h, hx⟩
      obtain ⟨rfl, rfl⟩ := Prod.mk.inj h
      exact ⟨n, rfl, x, hx, if_pos rfl⟩
  simp only [Fields.keyed, bind_eq_ok_iff, Fields.object_eq_ok_iff, mapM_eq_ok_iff, hentry]

theorem ofKeyed_eq_ok_iff {xs : List α} {v : Json} :
    Json.ofKeyed write name xs = .ok v ↔ ∃ entries, v = .object (Fields.assignAll [] entries) ∧
      List.Forall₂ (fun x f => ∃ n, f = (name x, .object n) ∧ write x = .ok n) xs entries := by
  simp only [Json.ofKeyed, bind_eq_ok_iff, mapM_eq_ok_iff, pure_eq_ok_iff]
  constructor
  · rintro ⟨entries, h, rfl⟩
    exact ⟨entries, rfl, h.imp fun x f ⟨n, hn, hf⟩ => ⟨n, hf.symm, hn⟩⟩
  · rintro ⟨entries, rfl, h⟩
    exact ⟨entries, h.imp fun x f ⟨n, hf, hn⟩ => ⟨n, hn, hf.symm⟩, rfl⟩

theorem keys_of_ofKeyed {xs : List α} {entries : Fields}
    (h : List.Forall₂ (fun x f => ∃ n, f = (name x, .object n) ∧ write x = .ok n) xs entries) :
    entries.keys = xs.map name :=
  (map_eq_map_of_forall₂ h fun _ _ ⟨_, hf, _⟩ => by rw [hf]).symm

theorem keys_of_keyed {xs : List α} {entries : Fields}
    (h : List.Forall₂ (fun f x => ∃ n, f = (name x, .object n) ∧ read n = .ok x) entries xs) :
    entries.keys = xs.map name :=
  map_eq_map_of_forall₂ h fun _ _ ⟨_, hf, _⟩ => by rw [hf]

/-- A section of things under different names holds an entry for each. -/
theorem ofKeyed_eq_ok_iff_of_nodup {xs : List α} (hxs : (xs.map name).Nodup) {v : Json} :
    Json.ofKeyed write name xs = .ok v ↔ ∃ entries, v = .object entries ∧
      List.Forall₂ (fun x f => ∃ n, f = (name x, .object n) ∧ write x = .ok n) xs entries := by
  rw [ofKeyed_eq_ok_iff]
  have hassign : ∀ {entries : Fields},
      List.Forall₂ (fun x f => ∃ n, f = (name x, .object n) ∧ write x = .ok n) xs entries →
      Fields.assignAll [] entries = entries := fun h =>
    Fields.assignAll_nil_of_nodup (keys_of_ofKeyed h ▸ hxs)
  constructor
  · rintro ⟨entries, rfl, h⟩
    exact ⟨entries, by rw [hassign h], h⟩
  · rintro ⟨entries, rfl, h⟩
    exact ⟨entries, by rw [hassign h], h⟩

/-! ### Reading back -/

/-- A list that was written reads back if each of its things does. -/
theorem list_of_ofList {xs : List α} {v : Json}
    (hread : ∀ x ∈ xs, ∀ n, write x = .ok n → read n = .ok x)
    (hwrite : Json.ofList write xs = .ok v) (hv : m.value? key = some v) :
    m.list read key = .ok xs := by
  obtain ⟨items, rfl, h⟩ := ofList_eq_ok_iff.1 hwrite
  refine list_eq_ok_iff.2 ⟨items, hv, List.Forall₂.flip ?_⟩
  exact (forall₂_mem_left h).imp fun x w ⟨hx, n, hw, hn⟩ => ⟨n, hw, hread x hx n hn⟩

/-- A section that was written reads back if each of its things does and no name is repeated. -/
theorem keyed_of_ofKeyed {xs : List α} {v : Json} (hxs : (xs.map name).Nodup)
    (hread : ∀ x ∈ xs, ∀ n, write x = .ok n → read n = .ok x)
    (hwrite : Json.ofKeyed write name xs = .ok v) (hv : m.value? key = some v) :
    m.keyed read name key = .ok xs := by
  obtain ⟨entries, rfl, h⟩ := (ofKeyed_eq_ok_iff_of_nodup hxs).1 hwrite
  refine keyed_eq_ok_iff.2 ⟨entries, hv, List.Forall₂.flip ?_⟩
  exact (forall₂_mem_left h).imp fun x f ⟨hx, n, hf, hn⟩ => ⟨n, hf, hread x hx n hn⟩

/-! ### Success -/

theorem exists_ofList_iff {xs : List α} :
    (∃ v, Json.ofList write xs = .ok v) ↔ ∀ x ∈ xs, ∃ n, write x = .ok n := by
  simp only [ofList_eq_ok_iff]
  constructor
  · rintro ⟨v, items, -, h⟩ x hx
    obtain ⟨_, -, n, -, hn⟩ := exists_of_mem_left h hx
    exact ⟨n, hn⟩
  · intro h
    obtain ⟨items, hitems⟩ := exists_forall₂ fun x hx =>
      let ⟨n, hn⟩ := h x hx
      show ∃ w, ∃ n, w = Json.object n ∧ write x = .ok n from ⟨_, n, rfl, hn⟩
    exact ⟨_, items, rfl, hitems⟩

theorem exists_ofKeyed_iff (name : α → String) {xs : List α} :
    (∃ v, Json.ofKeyed write name xs = .ok v) ↔ ∀ x ∈ xs, ∃ n, write x = .ok n := by
  simp only [ofKeyed_eq_ok_iff]
  constructor
  · rintro ⟨v, entries, -, h⟩ x hx
    obtain ⟨_, -, n, -, hn⟩ := exists_of_mem_left h hx
    exact ⟨n, hn⟩
  · intro h
    obtain ⟨entries, hentries⟩ := exists_forall₂ fun x hx =>
      let ⟨n, hn⟩ := h x hx
      show ∃ f, ∃ n, f = (name x, Json.object n) ∧ write x = .ok n from ⟨_, n, rfl, hn⟩
    exact ⟨_, entries, rfl, hentries⟩

/-! ### Things that are always written -/

variable {plain : α → Fields}

theorem ofList_plain (xs : List α) : Json.ofList (fun x => .ok (plain x)) xs =
    .ok (.array (xs.map fun x => .object (plain x))) := by
  refine ofList_eq_ok_iff.2 ⟨_, rfl, List.forall₂_map_right_iff.2 ?_⟩
  exact List.forall₂_same.2 fun x _ => ⟨plain x, rfl, rfl⟩

theorem list_of_plain {xs : List α} (hread : ∀ x ∈ xs, read (plain x) = .ok x)
    (hv : m.value? key = some (.array (xs.map fun x => .object (plain x)))) :
    m.list read key = .ok xs :=
  list_of_ofList (fun x hx _ hn => Except.ok.inj hn ▸ hread x hx) (ofList_plain xs) hv

/-! ### Origins -/

/-- Each thing of a list is read from an item of it. -/
theorem exists_of_mem_list {xs : List α} (h : m.list read key = .ok xs) {x : α} (hx : x ∈ xs) :
    ∃ items n, m.value? key = some (.array items) ∧ .object n ∈ items ∧ read n = .ok x := by
  obtain ⟨items, hitems, h⟩ := list_eq_ok_iff.1 h
  obtain ⟨v, hv, n, rfl, hn⟩ := exists_of_mem_right h hx
  exact ⟨items, n, hitems, hv, hn⟩

/-- Each thing of a section is read from the entry under its name. -/
theorem exists_of_mem_keyed {xs : List α} (h : m.keyed read name key = .ok xs) {x : α}
    (hx : x ∈ xs) : ∃ entries n, m.value? key = some (.object entries) ∧
      (name x, .object n) ∈ entries ∧ read n = .ok x := by
  obtain ⟨entries, hentries, h⟩ := keyed_eq_ok_iff.1 h
  obtain ⟨f, hf, n, rfl, hn⟩ := exists_of_mem_right h hx
  exact ⟨entries, n, hentries, hf, hn⟩

/-- A section without repeated keys holds things under different names. -/
theorem nodup_names_of_keyed {xs : List α} (hm : (Json.object m).WellFormed)
    (h : m.keyed read name key = .ok xs) : (xs.map name).Nodup := by
  obtain ⟨entries, hentries, h⟩ := keyed_eq_ok_iff.1 h
  rw [← keys_of_keyed h]
  exact (hm.of_value? hentries).nodup_keys

/-! ### Properties at every depth -/

variable {p : Json → Bool}

theorem all_of_mem_list {xs : List α} (hm : (Json.object m).all p)
    (h : m.list read key = .ok xs) {x : α} (hx : x ∈ xs) :
    ∃ n, (Json.object n).all p ∧ read n = .ok x := by
  obtain ⟨items, n, hitems, hn, hread⟩ := exists_of_mem_list h hx
  exact ⟨n, (Json.all_array.1 (Json.all_of_value? hm hitems)).2 _ hn, hread⟩

theorem all_of_mem_keyed {xs : List α} (hm : (Json.object m).all p)
    (h : m.keyed read name key = .ok xs) {x : α} (hx : x ∈ xs) :
    ∃ n, (Json.object n).all p ∧ read n = .ok x := by
  obtain ⟨entries, n, hentries, hn, hread⟩ := exists_of_mem_keyed h hx
  exact ⟨n, (Json.all_object.1 (Json.all_of_value? hm hentries)).2 _ hn, hread⟩

theorem all_ofList (hp : Json.Lenient p) {xs : List α} {v : Json}
    (hwrite : Json.ofList write xs = .ok v)
    (h : ∀ x ∈ xs, ∀ n, write x = .ok n → (Json.object n).all p) : v.all p := by
  obtain ⟨items, rfl, hitems⟩ := ofList_eq_ok_iff.1 hwrite
  refine hp.array fun w hw => ?_
  obtain ⟨x, hx, n, rfl, hn⟩ := exists_of_mem_right hitems hw
  exact h x hx n hn

theorem all_ofKeyed (hp : Json.Lenient p) {xs : List α} {v : Json}
    (hwrite : Json.ofKeyed write name xs = .ok v)
    (h : ∀ x ∈ xs, ∀ n, write x = .ok n → (Json.object n).all p) : v.all p := by
  obtain ⟨entries, rfl, hentries⟩ := ofKeyed_eq_ok_iff.1 hwrite
  refine hp.object (Fields.nodup_keys_assignAll (m := []) .nil entries) fun f hf => ?_
  have hf : f ∈ entries := (Fields.mem_assignAll hf).resolve_left List.not_mem_nil
  obtain ⟨x, hx, n, rfl, hn⟩ := exists_of_mem_right hentries hf
  exact h x hx n hn

end Lists

end HdlInterface
