import HdlInterface.Proofs.Json.Equality

/-!
# Lists and sections that are rewritten

What is read as a list or a section and written again keeps its length, its order and its keys. It
is equal to what was read exactly if all its objects are.
-/

namespace HdlInterface

/-- Both values are objects, and their fields are related. -/
def Json.Objects (R : Fields → Fields → Prop) (v w : Json) : Prop :=
  ∃ m n, v = .object m ∧ w = .object n ∧ R m n

/-- Both entries have the same key, and their values are related objects. -/
def Fields.Entries (R : Fields → Fields → Prop) (f g : String × Json) : Prop :=
  f.1 = g.1 ∧ f.2.Objects R g.2

/-- Every object of the list under the key satisfies `P`. -/
def Fields.EveryItem (P : Fields → Prop) (m : Fields) (key : String) : Prop :=
  ∀ items n, m.value? key = some (.array items) → .object n ∈ items → P n

/-- Every object of the section under the key satisfies `P`. -/
def Fields.EveryEntry (P : Fields → Prop) (m : Fields) (key : String) : Prop :=
  ∀ entries k n, m.value? key = some (.object entries) → (k, .object n) ∈ entries → P n

section

variable {R : Fields → Fields → Prop} {P : Fields → Prop} {m : Fields} {key : String}

theorem everyItem_iff {items : List Json} (h : m.value? key = some (.array items)) :
    m.EveryItem P key ↔ ∀ n, .object n ∈ items → P n := by
  simp only [Fields.EveryItem, h, Option.some.injEq, Json.array.injEq]
  exact ⟨fun hall n => hall items n rfl, fun hall _ n hitems => hitems ▸ hall n⟩

theorem everyEntry_iff {entries : Fields} (h : m.value? key = some (.object entries)) :
    m.EveryEntry P key ↔ ∀ k n, (k, .object n) ∈ entries → P n := by
  simp only [Fields.EveryEntry, h, Option.some.injEq, Json.object.injEq]
  exact ⟨fun hall k n => hall entries k n rfl, fun hall _ k n hentries => hentries ▸ hall k n⟩

theorem same_items_iff (hR : ∀ m n, R m n → (Json.object m).WellFormed → (n.same m = true ↔ P m))
    {items items' : List Json} (hitems : ∀ v ∈ items, v.WellFormed)
    (h : List.Forall₂ (Json.Objects R) items items') :
    (Json.array items').same (.array items) = true ↔ ∀ n, .object n ∈ items → P n := by
  rw [Json.same_array]
  induction h with
  | nil => simp
  | cons hvw _ ih =>
      obtain ⟨m, n, rfl, rfl, hmn⟩ := hvw
      rw [List.forall_mem_cons] at hitems
      rw [List.forall₂_cons, ih hitems.2, ← Fields.same, hR m n hmn hitems.1]
      simp [or_imp, forall_and]

theorem same_entries_iff (hR : ∀ m n, R m n → (Json.object m).WellFormed → (n.same m = true ↔ P m))
    {entries entries' : Fields} (hentries : (Json.object entries).WellFormed)
    (h : List.Forall₂ (Fields.Entries R) entries entries') :
    (Json.object entries').same (.object entries) = true ↔
      ∀ k n, (k, .object n) ∈ entries → P n := by
  have hkeys : List.Forall₂ (fun f g => f.1 = g.1) entries' entries :=
    (h.imp fun f g hfg => hfg.1.symm).flip
  have hvalues := (Json.all_object.1 hentries).2
  rw [Fields.same_iff_forall₂ hentries.nodup_keys hkeys]
  clear hkeys hentries
  induction h with
  | nil => simp
  | @cons f g _ _ hfg _ ih =>
      obtain ⟨k, v⟩ := f
      obtain ⟨-, m, n, rfl, hg, hmn⟩ := hfg
      rw [List.forall_mem_cons] at hvalues
      have hfirst : g.2.same (.object m) = true ↔ P m := hg ▸ hR m n hmn hvalues.1
      refine List.forall₂_cons.trans ((and_congr hfirst (ih hvalues.2)).trans ?_)
      simp [or_imp, forall_and]

/-! ## Reading and writing -/

variable {α : Type} {read : Fields → Except DocumentError α}
  {write : α → Except DocumentError Fields} {name : α → String} {xs : List α} {v : Json}

theorem rewritten_list (hm : (Json.object m).WellFormed)
    (hR : ∀ m x n, (Json.object m).WellFormed → read m = .ok x → write x = .ok n → R m n)
    (hread : m.list read key = .ok xs) (hwrite : Json.ofList write xs = .ok v) :
    ∃ items items', m.value? key = some (.array items) ∧ v = .array items' ∧
      List.Forall₂ (Json.Objects R) items items' := by
  obtain ⟨items, hitems, hread⟩ := list_eq_ok_iff.1 hread
  obtain ⟨items', hv, hwrite⟩ := ofList_eq_ok_iff.1 hwrite
  refine ⟨items, items', hitems, hv, forall₂_comp ?_ (forall₂_mem_left hread) hwrite⟩
  rintro u x w ⟨hu, m, rfl, hx⟩ ⟨n, rfl, hn⟩
  exact ⟨m, n, rfl, rfl, hR m x n ((Json.all_array.1 (hm.of_value? hitems)).2 _ hu) hx hn⟩

theorem rewritten_keyed (hm : (Json.object m).WellFormed)
    (hR : ∀ m x n, (Json.object m).WellFormed → read m = .ok x → write x = .ok n → R m n)
    (hread : m.keyed read name key = .ok xs) (hwrite : Json.ofKeyed write name xs = .ok v) :
    ∃ entries entries', m.value? key = some (.object entries) ∧ v = .object entries' ∧
      List.Forall₂ (Fields.Entries R) entries entries' := by
  have hxs := nodup_names_of_keyed hm hread
  obtain ⟨entries, hentries, hread⟩ := keyed_eq_ok_iff.1 hread
  obtain ⟨entries', hv, hwrite⟩ := (ofKeyed_eq_ok_iff_of_nodup hxs).1 hwrite
  refine ⟨entries, entries', hentries, hv, forall₂_comp ?_ (forall₂_mem_left hread) hwrite⟩
  rintro f x g ⟨hf, m, rfl, hx⟩ ⟨n, rfl, hn⟩
  exact ⟨rfl, m, n, rfl, rfl, hR m x n ((Json.all_object.1 (hm.of_value? hentries)).2 _ hf) hx hn⟩

end

end HdlInterface
