import HdlInterface.Proofs.Design.ReadBack
import HdlInterface.Proofs.Document.Alike

/-!
# Equality of design units

Units are equal if they agree in everything but the order of fields that are kept as they are. That
is an equivalence among units in which no object that is kept repeats a key; equal units have equal
documents, and are equal after a renaming.
-/

namespace HdlInterface

/-! ## Lists related one by one -/

section Related

variable {α : Type} {R : α → α → Prop} {xs ys zs : List α}

theorem forall₂_symm (h : List.Forall₂ R xs ys) (hR : ∀ a b, R a b → R b a) :
    List.Forall₂ R ys xs :=
  (h.imp hR).flip

theorem forall₂_trans (h : List.Forall₂ R xs ys) (h' : List.Forall₂ R ys zs)
    (hR : ∀ a b c, R a b → R b c → R a c) : List.Forall₂ R xs zs :=
  forall₂_comp hR h h'

/-- A relation that is a test of what satisfies `P` relates lists that the test relates. -/
theorem forall₂_iff_sameList {P : α → Prop} {same : α → α → Bool}
    (hR : ∀ a b, R a b ↔ P a ∧ P b ∧ same a b = true) : List.Forall₂ R xs ys ↔
      (∀ x ∈ xs, P x) ∧ (∀ y ∈ ys, P y) ∧ sameList same xs ys = true := by
  obtain rfl : R = fun a b => P a ∧ P b ∧ same a b = true := funext₂ fun a b => propext (hR a b)
  rw [sameList_iff]
  exact forall₂_restrict_iff

end Related

/-! ## Functions -/

section Functions

variable {fs gs : List Fields}

theorem forall₂_same_iff : List.Forall₂ Fields.Same fs gs ↔
    (∀ m ∈ fs, (Json.object m).WellFormed) ∧ (∀ n ∈ gs, (Json.object n).WellFormed) ∧
      sameList Fields.same fs gs = true :=
  forall₂_iff_sameList fun _ _ => Iff.rfl

theorem Json.ofFunctions_same (h : List.Forall₂ Fields.Same fs gs) :
    (Json.ofFunctions fs).Same (Json.ofFunctions gs) :=
  same_array_iff.2 (List.forall₂_map_left_iff.2 (List.forall₂_map_right_iff.2 h))

end Functions

theorem Fields.Same.symm {m n : Fields} (h : m.Same n) : n.Same m := Json.Same.symm h

theorem Fields.Same.trans {k m n : Fields} (h : k.Same m) (h' : m.Same n) : k.Same n :=
  Json.Same.trans h h'

/-! ## Sections -/

/-- Things of the same names and equal documents are written as equal sections. -/
theorem Json.ofKeyed_alike {α β : Type} {S : α → β → Prop}
    {E : DocumentError → DocumentError → Prop} {write : α → Except DocumentError Fields}
    {write' : β → Except DocumentError Fields} {name : α → String} {name' : β → String}
    {xs : List α} {ys : List β} (h : List.Forall₂ S xs ys)
    (hname : ∀ a b, S a b → name a = name' b)
    (hwrite : ∀ a b, S a b → Alike E Fields.Same (write a) (write' b)) :
    Alike E Json.Same (Json.ofKeyed write name xs) (Json.ofKeyed write' name' ys) := by
  have hentries : Alike E (List.Forall₂ fun f g : String × Json => f.1 = g.1 ∧ f.2.Same g.2)
      (xs.mapM fun x => do return (name x, Json.object (← write x)))
      (ys.mapM fun y => do return (name' y, Json.object (← write' y))) :=
    Alike.mapM h fun a b hab => (hwrite a b hab).bind fun _ _ hmn => .ok ⟨hname a b hab, hmn⟩
  have hempty : Fields.Same [] [] := Json.Same.refl (by decide)
  exact hentries.bind fun _ _ hes => .ok (Fields.same_assignAll_of_forall₂ hempty hes)

/-- The document of an entity repeats no key. -/
theorem Entity.toFields_alike (e : Entity) : Alike Eq Fields.Same e.toFields e.toFields := by
  cases h : e.toFields with
  | error => exact .error rfl
  | ok m => exact .ok (Json.Same.refl (Entity.all_of_toFields Json.lenient_distinctKeys h))

/-! ## Package headers -/

namespace PackageHeader

structure Same (h k : PackageHeader) : Prop where
  name : h.name = k.name
  components : h.components = k.components
  functions : List.Forall₂ Fields.Same h.functions k.functions
  extra : h.extra.Same k.extra

variable {h k l : PackageHeader}

theorem same_def : h.Same k ↔
    (∀ v ∈ h.raw, v.WellFormed) ∧ (∀ v ∈ k.raw, v.WellFormed) ∧ h.same k = true := by
  simp only [raw, List.forall_mem_cons, List.forall_mem_map, same, Bool.and_eq_true, beq_iff_eq]
  constructor
  · rintro ⟨hname, hcomponents, hfunctions, hextra⟩
    obtain ⟨hf, hg, hsame⟩ := forall₂_same_iff.1 hfunctions
    exact ⟨⟨hextra.1, hf⟩, ⟨hextra.2.1, hg⟩, ⟨⟨hname, hcomponents⟩, hsame⟩, hextra.2.2⟩
  · rintro ⟨⟨hx, hf⟩, ⟨hy, hg⟩, ⟨⟨hname, hcomponents⟩, hfunctions⟩, hextra⟩
    exact ⟨hname, hcomponents, forall₂_same_iff.2 ⟨hf, hg, hfunctions⟩, hx, hy, hextra⟩

theorem Same.symm (hhk : h.Same k) : k.Same h :=
  ⟨hhk.name.symm, hhk.components.symm, forall₂_symm hhk.functions fun _ _ => .symm,
    hhk.extra.symm⟩

theorem Same.trans (hhk : h.Same k) (hkl : k.Same l) : h.Same l :=
  ⟨hhk.name.trans hkl.name, hhk.components.trans hkl.components,
    forall₂_trans hhk.functions hkl.functions fun _ _ _ => .trans,
    hhk.extra.trans hkl.extra⟩

theorem toFields_alike (hhk : h.Same k) : Alike Eq Fields.Same h.toFields k.toFields := by
  have hcomponents : List.Forall₂ Eq h.components k.components :=
    List.forall₂_eq_eq_eq ▸ hhk.components
  refine (Json.ofKeyed_alike hcomponents (fun a b hab => congrArg Entity.name hab)
    fun a b hab => hab ▸ a.toFields_alike).bind fun v w hvw => .ok ?_
  have hbase : Fields.Same
      [("name", .string h.name), ("components", v), ("functions", .ofFunctions h.functions)]
      [("name", .string k.name), ("components", w), ("functions", .ofFunctions k.functions)] :=
    Fields.same_of_forall₂ (by decide : knownKeys.Nodup)
      (.cons ⟨rfl, .string hhk.name⟩ (.cons ⟨rfl, hvw⟩
        (.cons ⟨rfl, Json.ofFunctions_same hhk.functions⟩ .nil)))
  exact hbase.assignAll hhk.extra

theorem Same.mapNames (hhk : h.Same k) (f : String → String) :
    (h.mapNames f).Same (k.mapNames f) :=
  ⟨congrArg f hhk.name, congrArg (List.map _) hhk.components, hhk.functions, hhk.extra⟩

end PackageHeader

/-! ## Package bodies -/

namespace PackageBody

structure Same (b c : PackageBody) : Prop where
  name : b.name = c.name
  functions : List.Forall₂ Fields.Same b.functions c.functions
  extra : b.extra.Same c.extra

variable {a b c : PackageBody}

theorem same_def : b.Same c ↔
    (∀ v ∈ b.raw, v.WellFormed) ∧ (∀ v ∈ c.raw, v.WellFormed) ∧ b.same c = true := by
  simp only [raw, List.forall_mem_cons, List.forall_mem_map, same, Bool.and_eq_true, beq_iff_eq]
  constructor
  · rintro ⟨hname, hfunctions, hextra⟩
    obtain ⟨hf, hg, hsame⟩ := forall₂_same_iff.1 hfunctions
    exact ⟨⟨hextra.1, hf⟩, ⟨hextra.2.1, hg⟩, ⟨hname, hsame⟩, hextra.2.2⟩
  · rintro ⟨⟨hx, hf⟩, ⟨hy, hg⟩, ⟨hname, hfunctions⟩, hextra⟩
    exact ⟨hname, forall₂_same_iff.2 ⟨hf, hg, hfunctions⟩, hx, hy, hextra⟩

theorem Same.symm (hbc : b.Same c) : c.Same b :=
  ⟨hbc.name.symm, forall₂_symm hbc.functions fun _ _ => .symm, hbc.extra.symm⟩

theorem Same.trans (hab : a.Same b) (hbc : b.Same c) : a.Same c :=
  ⟨hab.name.trans hbc.name,
    forall₂_trans hab.functions hbc.functions fun _ _ _ => .trans,
    hab.extra.trans hbc.extra⟩

theorem toFields_same (hbc : b.Same c) : b.toFields.Same c.toFields := by
  have hbase : Fields.Same [("name", .string b.name), ("functions", .ofFunctions b.functions)]
      [("name", .string c.name), ("functions", .ofFunctions c.functions)] :=
    Fields.same_of_forall₂ (by decide : knownKeys.Nodup)
      (.cons ⟨rfl, .string hbc.name⟩ (.cons ⟨rfl, Json.ofFunctions_same hbc.functions⟩ .nil))
  exact hbase.assignAll hbc.extra

theorem Same.mapNames (hbc : b.Same c) (f : String → String) : (b.mapNames f).Same (c.mapNames f) :=
  ⟨congrArg f hbc.name, hbc.functions, hbc.extra⟩

end PackageBody

/-! ## References -/

/-- Only strings are renamed, and equal strings are the same. -/
theorem Json.mapReference_same {v w : Json} (h : v.Same w) (f : String → String) :
    (v.mapReference f).Same (w.mapReference f) := by
  cases h.parts with
  | string s => exact .string rfl
  | array hvs =>
    rw [mapReference, mapReference, same_array_iff, List.forall₂_map_left_iff,
      List.forall₂_map_right_iff]
    refine hvs.imp fun v w hvw => ?_
    cases hvw.parts with
    | string s => exact .string rfl
    | _ => exact hvw
  | _ => exact h

/-! ## Instances -/

namespace Instance

structure Same (i j : Instance) : Prop where
  name : i.name = j.name
  reference : i.reference.Same j.reference
  extra : i.extra.Same j.extra

variable {i j k : Instance}

theorem same_def : i.Same j ↔
    (∀ v ∈ i.raw, v.WellFormed) ∧ (∀ v ∈ j.raw, v.WellFormed) ∧ i.same j = true := by
  simp only [raw, List.forall_mem_cons, List.not_mem_nil, false_implies, implies_true, and_true,
    same, Bool.and_eq_true, beq_iff_eq]
  constructor
  · rintro ⟨hname, hreference, hextra⟩
    exact ⟨⟨hreference.1, hextra.1⟩, ⟨hreference.2.1, hextra.2.1⟩, ⟨hname, hreference.2.2⟩,
      hextra.2.2⟩
  · rintro ⟨⟨hr, hx⟩, ⟨hs, hy⟩, ⟨hname, hreference⟩, hextra⟩
    exact ⟨hname, ⟨hr, hs, hreference⟩, hx, hy, hextra⟩

theorem Same.symm (hij : i.Same j) : j.Same i :=
  ⟨hij.name.symm, hij.reference.symm, hij.extra.symm⟩

theorem Same.trans (hij : i.Same j) (hjk : j.Same k) : i.Same k :=
  ⟨hij.name.trans hjk.name, hij.reference.trans hjk.reference, hij.extra.trans hjk.extra⟩

theorem toFields_same (hij : i.Same j) : i.toFields.Same j.toFields := by
  have hbase : Fields.Same [("name", .string i.name), ("entityName", i.reference)]
      [("name", .string j.name), ("entityName", j.reference)] :=
    Fields.same_of_forall₂ (by decide : knownKeys.Nodup)
      (.cons ⟨rfl, .string hij.name⟩ (.cons ⟨rfl, hij.reference⟩ .nil))
  exact hbase.assignAll hij.extra

theorem Same.mapNames (hij : i.Same j) (f : String → String) : (i.mapNames f).Same (j.mapNames f) :=
  ⟨congrArg f hij.name, Json.mapReference_same hij.reference f, hij.extra⟩

end Instance

/-! ## Architectures -/

namespace Architecture

structure Same (a b : Architecture) : Prop where
  name : a.name = b.name
  entity : a.entity = b.entity
  instances : List.Forall₂ Instance.Same a.instances b.instances
  extra : a.extra.Same b.extra

variable {a b c : Architecture}

theorem same_def : a.Same b ↔
    (∀ v ∈ a.raw, v.WellFormed) ∧ (∀ v ∈ b.raw, v.WellFormed) ∧ a.same b = true := by
  have hinstances : List.Forall₂ Instance.Same a.instances b.instances ↔
      (∀ i ∈ a.instances, ∀ v ∈ i.raw, v.WellFormed) ∧
      (∀ i ∈ b.instances, ∀ v ∈ i.raw, v.WellFormed) ∧
      sameList Instance.same a.instances b.instances = true :=
    forall₂_iff_sameList fun _ _ => Instance.same_def
  simp only [raw, List.forall_mem_cons, List.forall_mem_flatMap, same, Bool.and_eq_true, beq_iff_eq]
  constructor
  · rintro ⟨hname, hentity, hlist, hextra⟩
    obtain ⟨hi, hj, hsame⟩ := hinstances.1 hlist
    exact ⟨⟨hextra.1, hi⟩, ⟨hextra.2.1, hj⟩, ⟨⟨hname, hentity⟩, hsame⟩, hextra.2.2⟩
  · rintro ⟨⟨hx, hi⟩, ⟨hy, hj⟩, ⟨⟨hname, hentity⟩, hsame⟩, hextra⟩
    exact ⟨hname, hentity, hinstances.2 ⟨hi, hj, hsame⟩, hx, hy, hextra⟩

theorem Same.symm (hab : a.Same b) : b.Same a :=
  ⟨hab.name.symm, hab.entity.symm, forall₂_symm hab.instances fun _ _ => .symm,
    hab.extra.symm⟩

theorem Same.trans (hab : a.Same b) (hbc : b.Same c) : a.Same c :=
  ⟨hab.name.trans hbc.name, hab.entity.trans hbc.entity,
    forall₂_trans hab.instances hbc.instances fun _ _ _ => .trans,
    hab.extra.trans hbc.extra⟩

theorem toFields_same (hab : a.Same b) : a.toFields.Same b.toFields := by
  have hinstances : (Json.array (a.instances.map fun i => .object i.toFields)).Same
      (.array (b.instances.map fun i => .object i.toFields)) := by
    rw [Json.same_array_iff, List.forall₂_map_left_iff, List.forall₂_map_right_iff]
    exact hab.instances.imp fun _ _ => Instance.toFields_same
  have hbase : Fields.Same
      [("name", .string a.name), ("entityName", .string a.entity),
        ("componentInstances", .array (a.instances.map fun i => .object i.toFields))]
      [("name", .string b.name), ("entityName", .string b.entity),
        ("componentInstances", .array (b.instances.map fun i => .object i.toFields))] :=
    Fields.same_of_forall₂ (by decide : knownKeys.Nodup)
      (.cons ⟨rfl, .string hab.name⟩ (.cons ⟨rfl, .string hab.entity⟩
        (.cons ⟨rfl, hinstances⟩ .nil)))
  exact hbase.assignAll hab.extra

theorem Same.mapNames (hab : a.Same b) (f : String → String) :
    (a.mapNames f).Same (b.mapNames f) := by
  refine ⟨congrArg f hab.name, congrArg f hab.entity, ?_, hab.extra⟩
  simp only [Architecture.mapNames, List.forall₂_map_left_iff, List.forall₂_map_right_iff]
  exact hab.instances.imp fun _ _ hij => hij.mapNames f

end Architecture

end HdlInterface
