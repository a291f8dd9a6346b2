import HdlInterface.Proofs.Design.Arrange

/-!
# Nesting depth

How deep the document of an expression, an interface, a unit or a design nests. What is written
nests no deeper (`Design.depth_toFields_le`), what is read nested at least as deep
(`Design.depth_le_of_ofFields`), and neither renaming nor arranging makes a difference.
-/

namespace HdlInterface

open Json (fieldsDepth itemsDepth)

/-! ## Lists -/

/-- The greatest depth of the things in a list. -/
def listDepth {α : Type} (depth : α → Nat) : List α → Nat
  | [] => 0
  | x :: xs => max (depth x) (listDepth depth xs)

section Lists

variable {α : Type} {depth : α → Nat} {xs : List α} {m : Fields} {key : String}
  {read : Fields → Except DocumentError α} {write : α → Except DocumentError Fields}
  {name : α → String}

theorem listDepth_le_iff {n : Nat} : listDepth depth xs ≤ n ↔ ∀ x ∈ xs, depth x ≤ n := by
  induction xs with
  | nil => simp [listDepth]
  | cons x xs ih => rw [listDepth, Nat.max_le, ih, List.forall_mem_cons]

theorem depth_le_listDepth {x : α} (h : x ∈ xs) : depth x ≤ listDepth depth xs :=
  listDepth_le_iff.1 (Nat.le_refl _) x h

theorem listDepth_map {f : α → α} (h : ∀ x ∈ xs, depth (f x) = depth x) :
    listDepth depth (xs.map f) = listDepth depth xs := by
  induction xs with
  | nil => rfl
  | cons x xs ih =>
      rw [List.forall_mem_cons] at h
      rw [List.map_cons, listDepth, listDepth, h.1, ih h.2]

theorem listDepth_perm {ys : List α} (h : xs.Perm ys) :
    listDepth depth xs = listDepth depth ys := by
  refine Nat.le_antisymm ?_ ?_
  · exact listDepth_le_iff.2 fun x hx => depth_le_listDepth (h.mem_iff.1 hx)
  · exact listDepth_le_iff.2 fun x hx => depth_le_listDepth (h.mem_iff.2 hx)

theorem depth_ofList_le (h : ∀ x n, write x = .ok n → (Json.object n).depth ≤ depth x) {v : Json}
    (hv : Json.ofList write xs = .ok v) : v.depth ≤ 1 + listDepth depth xs := by
  obtain ⟨items, rfl, hitems⟩ := ofList_eq_ok_iff.1 hv
  have hle : itemsDepth items ≤ listDepth depth xs := Json.itemsDepth_le_iff.2 fun w hw => by
    obtain ⟨x, hx, n, rfl, hn⟩ := exists_of_mem_right hitems hw
    exact Nat.le_trans (h x n hn) (depth_le_listDepth hx)
  simp only [Json.depth]
  omega

theorem depth_plainList_le {plain : α → Fields} (h : ∀ x, (Json.object (plain x)).depth ≤ depth x)
    (xs : List α) :
    (Json.array (xs.map fun x => .object (plain x))).depth ≤ 1 + listDepth depth xs :=
  depth_ofList_le (fun x _ hn => Except.ok.inj hn ▸ h x) (ofList_plain xs)

theorem depth_ofKeyed_le (h : ∀ x n, write x = .ok n → (Json.object n).depth ≤ depth x) {v : Json}
    (hv : Json.ofKeyed write name xs = .ok v) : v.depth ≤ 1 + listDepth depth xs := by
  obtain ⟨entries, rfl, hentries⟩ := ofKeyed_eq_ok_iff.1 hv
  have hle : fieldsDepth entries ≤ listDepth depth xs := Json.fieldsDepth_le_iff.2 fun f hf => by
    obtain ⟨x, hx, n, rfl, hn⟩ := exists_of_mem_right hentries hf
    exact Nat.le_trans (h x n hn) (depth_le_listDepth hx)
  have hassign := Json.depth_assignAll_le [] entries
  simp only [fieldsDepth] at hassign
  omega

theorem listDepth_le_of_list (h : ∀ n x, read n = .ok x → depth x ≤ (Json.object n).depth)
    (hxs : m.list read key = .ok xs) : 1 + listDepth depth xs ≤ fieldsDepth m := by
  obtain ⟨items, hitems, hread⟩ := list_eq_ok_iff.1 hxs
  have hle : listDepth depth xs ≤ itemsDepth items := listDepth_le_iff.2 fun x hx => by
    obtain ⟨v, hv, n, rfl, hn⟩ := exists_of_mem_right hread hx
    exact Nat.le_trans (h n x hn) (Json.depth_le_itemsDepth hv)
  have hvalue := Json.depth_value?_le hitems
  simp only [Json.depth] at hvalue
  omega

theorem listDepth_le_of_keyed (h : ∀ n x, read n = .ok x → depth x ≤ (Json.object n).depth)
    (hxs : m.keyed read name key = .ok xs) : 1 + listDepth depth xs ≤ fieldsDepth m := by
  obtain ⟨entries, hentries, hread⟩ := keyed_eq_ok_iff.1 hxs
  have hle : listDepth depth xs ≤ fieldsDepth entries := listDepth_le_iff.2 fun x hx => by
    obtain ⟨f, hf, n, rfl, hn⟩ := exists_of_mem_right hread hx
    exact Nat.le_trans (h n x hn) (Json.depth_le_fieldsDepth hf)
  have hvalue := Json.depth_value?_le hentries
  simp only [Json.depth] at hvalue
  omega

/-- A section that is absent is empty, and nests no deeper than an object with any section. -/
theorem depth_le_of_optional {β : Type} {size : List β → Nat} {ys : List β}
    {f : Fields → String → Except DocumentError (List β)} (hnil : size [] = 0)
    (hm : 1 ≤ fieldsDepth m) (h : ∀ {zs}, f m key = .ok zs → 1 + size zs ≤ fieldsDepth m)
    (hys : m.optional key f = .ok ys) : 1 + size ys ≤ fieldsDepth m := by
  rcases Fields.optional_eq_ok_iff.1 hys with ⟨-, rfl⟩ | ⟨-, hys⟩
  · rw [hnil]
    exact hm
  · exact h hys

end Lists

/-! ## Expressions -/

/-- A name is a string or a list of strings. -/
def Literal.depth : Literal → Nat
  | name [_] => 1
  | name _ => 2
  | _ => 1

theorem Literal.depth_toFields_le (l : Literal) : (Json.object l.toFields).depth ≤ l.depth := by
  have hparts : ∀ parts : List String, itemsDepth (parts.map .string) = 0 := fun parts => by
    induction parts with
    | nil => rfl
    | cons part parts ih => simp [itemsDepth, Json.depth, ih]
  unfold toFields depth
  split <;> simp_all [Json.depth, fieldsDepth]

theorem Literal.depth_le_of_describedBy {m : Fields} {l : Literal} (h : l.DescribedBy m) :
    l.depth ≤ (Json.object m).depth := by
  unfold depth
  split
  · simp only [Json.depth]
    omega
  · next parts hne =>
      obtain ⟨-, h | ⟨part, rfl, -⟩⟩ := h
      · have hvalue := Json.depth_value?_le h
        simp only [Json.depth] at hvalue ⊢
        omega
      · exact absurd rfl (hne part)
  · simp only [Json.depth]
    omega

namespace Expr

mutual

def depth : Expr → Nat
  | literal l => 1 + l.depth
  | binary _ x y => 2 + max x.depth y.depth
  | nary _ x xs => 2 + max x.depth (1 + depthList xs)

def depthList : List Expr → Nat
  | [] => 0
  | x :: xs => max x.depth (depthList xs)

end

mutual

theorem depth_toFields_le : (e : Expr) → (Json.object e.toFields).depth ≤ e.depth
  | literal l => by
      have := l.depth_toFields_le
      simp only [toFields, depth, Json.depth, fieldsDepth] at this ⊢
      omega
  | binary _ x y => by
      have := depth_toFields_le x
      have := depth_toFields_le y
      simp only [toFields, depth, Json.depth, fieldsDepth] at *
      omega
  | nary _ x xs => by
      have := depth_toFields_le x
      have := itemsDepth_toItems_le xs
      simp only [toFields, depth, Json.depth, fieldsDepth] at *
      omega

theorem itemsDepth_toItems_le : (xs : List Expr) → itemsDepth (toItems xs) ≤ depthList xs
  | [] => Nat.le_refl 0
  | x :: xs => by
      have := depth_toFields_le x
      have := itemsDepth_toItems_le xs
      simp only [toItems, depthList, itemsDepth] at *
      omega

end

mutual

theorem depth_le_of_describedBy {m : Fields} :
    (e : Expr) → e.DescribedBy m → e.depth ≤ (Json.object m).depth
  | literal l, ⟨n, hn, h⟩ => by
      have := Literal.depth_le_of_describedBy h
      have := Json.depth_value?_le (Fields.value?_of_present? hn)
      simp only [depth, Json.depth] at *
      omega
  | binary _ x y, ⟨_, op, hop, _, ⟨n, hn, hx⟩, _, k, hk, hy⟩ => by
      have := depth_le_of_describedBy x hx
      have := depth_le_of_describedBy y hy
      have := Json.depth_value?_le hn
      have := Json.depth_value?_le hk
      have := Json.depth_value?_le (Fields.value?_of_present? hop)
      simp only [depth, Json.depth] at *
      omega
  | nary _ x xs, ⟨_, op, hop, _, ⟨n, hn, hx⟩, items, hitems, hxs⟩ => by
      have := depth_le_of_describedBy x hx
      have := depthList_le_of_itemsDescribedBy xs hxs
      have := Json.depth_value?_le hn
      have := Json.depth_value?_le hitems
      have := Json.depth_value?_le (Fields.value?_of_present? hop)
      simp only [depth, Json.depth] at *
      omega

theorem depthList_le_of_itemsDescribedBy {items : List Json} :
    (xs : List Expr) → ItemsDescribedBy items xs → depthList xs ≤ itemsDepth items
  | [], _ => Nat.zero_le _
  | x :: xs, ⟨n, rest, hitems, hx, hxs⟩ => by
      have := depth_le_of_describedBy x hx
      have := depthList_le_of_itemsDescribedBy xs hxs
      simp only [hitems, depthList, itemsDepth] at *
      omega

end

mutual

theorem depth_mapNames (f : String → String) : (e : Expr) → (e.mapNames f).depth = e.depth
  | literal (.name []) => rfl
  | literal (.name [_]) => rfl
  | literal (.name (_ :: _ :: _)) => rfl
  | literal (.integer ..) => rfl
  | literal (.string _) => rfl
  | binary _ x y => by simp only [mapNames, depth, depth_mapNames f x, depth_mapNames f y]
  | nary _ x xs => by simp only [mapNames, depth, depth_mapNames f x, depthList_mapNamesList f xs]

theorem depthList_mapNamesList (f : String → String) :
    (xs : List Expr) → depthList (mapNamesList f xs) = depthList xs
  | [] => rfl
  | x :: xs => by
      simp only [mapNamesList, depthList, depth_mapNames f x, depthList_mapNamesList f xs]

end

end Expr

/-! ## Interfaces -/

def Variable.depth (v : Variable) : Nat :=
  1 + max v.type.depth ((v.value.map Expr.depth).getD 0)

theorem Variable.depth_toFields_le (v : Variable) : (Json.object v.toFields).depth ≤ v.depth := by
  obtain ⟨name, type, value⟩ := v
  have htype := type.depth_toFields_le
  cases value with
  | none =>
      simp only [toFields, depth, Json.depth, fieldsDepth, Option.map_none, Option.getD_none]
        at htype ⊢
      omega
  | some x =>
      have hvalue := x.depth_toFields_le
      simp only [toFields, depth, Json.depth, fieldsDepth, Option.map_some, Option.getD_some]
        at htype hvalue ⊢
      omega

theorem Variable.depth_le_of_ofFields {m : Fields} {v : Variable} (h : ofFields m = .ok v) :
    v.depth ≤ (Json.object m).depth := by
  obtain ⟨-, ⟨n, hn, htype⟩, hvalue⟩ := ofFields_eq_ok_iff.1 h
  have htype := Expr.depth_le_of_describedBy _ htype
  have hn := Json.depth_value?_le hn
  rcases hvalue with ⟨hnone, -⟩ | ⟨x, k, hx, hk, hdescribed⟩
  · rw [depth, hnone, Option.map_none, Option.getD_none]
    simp only [Json.depth] at *
    omega
  · have hvalue := Expr.depth_le_of_describedBy _ hdescribed
    have hk := Json.depth_value?_le (Fields.value?_of_present? hk)
    rw [depth, hx, Option.map_some, Option.getD_some]
    simp only [Json.depth] at *
    omega

theorem Variable.depth_mapNames (f : String → String) (v : Variable) :
    (v.mapNames f).depth = v.depth := by
  simp [depth, mapNames, Expr.depth_mapNames, Function.comp_def]

def Port.depth (p : Port Variable) : Nat := 1 + (p.signal.map Variable.depth).getD 0

theorem Port.depth_write_le (p : Port Variable) (n : Fields) (h : p.write = .ok n) :
    (Json.object n).depth ≤ p.depth := by
  obtain ⟨d, v, rfl, rfl⟩ := write_eq_ok_iff.1 h
  have hv := v.depth_toFields_le
  simp only [Port.of, depth, Json.depth, fieldsDepth, Option.map_some, Option.getD_some] at hv ⊢
  omega

theorem Port.depth_le_of_read (m : Fields) (p : Port Variable) (h : Port.read m = .ok p) :
    p.depth ≤ (Json.object m).depth := by
  obtain ⟨s, d, n, v, -, -, hn, hv, rfl⟩ := read_eq_ok_iff.1 h
  have hv := Variable.depth_le_of_ofFields hv
  have hn := Json.depth_value?_le hn
  simp only [Port.of, depth, Json.depth, Option.map_some, Option.getD_some] at *
  omega

theorem Port.depth_mapNames (f : String → String) (p : Port Variable) :
    (p.mapNames f).depth = p.depth := by
  simp [depth, mapNames, Variable.depth_mapNames, Function.comp_def]

def Entity.depth (e : Entity) : Nat :=
  2 + max (listDepth Variable.depth e.generics) (listDepth Port.depth e.ports)

theorem Entity.depth_toFields_le (e : Entity) (w : Fields) (h : e.toFields = .ok w) :
    (Json.object w).depth ≤ e.depth := by
  obtain ⟨ports, hports, rfl⟩ := toFields_eq_ok_iff.1 h
  have hports := depth_ofList_le Port.depth_write_le hports
  have hgenerics := depth_plainList_le Variable.depth_toFields_le e.generics
  simp only [depth, Json.depth, fieldsDepth] at hgenerics ⊢
  omega

theorem Entity.depth_le_of_ofFields (m : Fields) (e : Entity) (h : ofFields m = .ok e) :
    e.depth ≤ (Json.object m).depth := by
  obtain ⟨-, hgenerics, hports⟩ := ofFields_eq_ok_iff.1 h
  have hgenerics := listDepth_le_of_list (fun _ _ => Variable.depth_le_of_ofFields) hgenerics
  have hports := listDepth_le_of_list Port.depth_le_of_read hports
  simp only [depth, Json.depth]
  omega

theorem Entity.depth_mapNames (f : String → String) (e : Entity) :
    (e.mapNames f).depth = e.depth := by
  rw [depth, mapNames, listDepth_map fun g _ => g.depth_mapNames f,
    listDepth_map fun p _ => p.depth_mapNames f, depth]

theorem Entity.depth_arrange (e : Entity) : e.arrange.depth = e.depth := by
  rw [depth, arrange, listDepth_perm (List.mergeSort_perm ..),
    listDepth_perm (List.mergeSort_perm ..), depth]

/-! ## Units -/

def PackageHeader.depth (h : PackageHeader) : Nat :=
  1 + max (1 + listDepth Entity.depth h.components)
    (max (Json.ofFunctions h.functions).depth (fieldsDepth h.extra))

theorem PackageHeader.depth_toFields_le (h : PackageHeader) (w : Fields)
    (hw : h.toFields = .ok w) : (Json.object w).depth ≤ h.depth := by
  obtain ⟨components, hcomponents, rfl⟩ := toFields_eq_ok_iff.1 hw
  have hcomponents := depth_ofKeyed_le Entity.depth_toFields_le hcomponents
  refine Nat.le_trans (Json.depth_assignAll_le ..) ?_
  simp only [depth, fieldsDepth, Json.depth]
  omega

theorem PackageHeader.depth_le_of_ofFields (m : Fields) (h : PackageHeader)
    (hread : ofFields m = .ok h) : h.depth ≤ (Json.object m).depth := by
  obtain ⟨-, hcomponents, hfunctions, hextra⟩ := ofFields_eq_ok_iff.1 hread
  have hcomponents := listDepth_le_of_keyed Entity.depth_le_of_ofFields hcomponents
  have hfunctions := Json.depth_value?_le hfunctions
  have hextra := hextra ▸ Json.fieldsDepth_without_le m knownKeys
  simp only [depth, Json.depth]
  omega

theorem PackageHeader.depth_mapNames (f : String → String) (h : PackageHeader) :
    (h.mapNames f).depth = h.depth := by
  rw [depth, mapNames, listDepth_map fun c _ => c.depth_mapNames f, depth]

theorem PackageHeader.depth_arrange (h : PackageHeader) : h.arrange.depth = h.depth := by
  rw [depth, arrange, listDepth_map fun c _ => c.depth_arrange, depth]

def PackageBody.depth (b : PackageBody) : Nat :=
  1 + max (Json.ofFunctions b.functions).depth (fieldsDepth b.extra)

theorem PackageBody.depth_toFields_le (b : PackageBody) :
    (Json.object b.toFields).depth ≤ b.depth := by
  refine Nat.le_trans (Json.depth_assignAll_le ..) ?_
  simp only [depth, fieldsDepth, Json.depth]
  omega

theorem PackageBody.depth_le_of_ofFields (m : Fields) (b : PackageBody)
    (hread : ofFields m = .ok b) : b.depth ≤ (Json.object m).depth := by
  obtain ⟨-, hfunctions, hextra⟩ := ofFields_eq_ok_iff.1 hread
  have hfunctions := Json.depth_value?_le hfunctions
  have hextra := hextra ▸ Json.fieldsDepth_without_le m knownKeys
  simp only [depth, Json.depth]
  omega

def Instance.depth (i : Instance) : Nat := 1 + max i.reference.depth (fieldsDepth i.extra)

theorem Instance.depth_toFields_le (i : Instance) : (Json.object i.toFields).depth ≤ i.depth := by
  refine Nat.le_trans (Json.depth_assignAll_le ..) ?_
  simp only [depth, fieldsDepth, Json.depth]
  omega

theorem Instance.depth_le_of_ofFields (m : Fields) (i : Instance) (hread : ofFields m = .ok i) :
    i.depth ≤ (Json.object m).depth := by
  obtain ⟨-, hreference, hextra⟩ := ofFields_eq_ok_iff.1 hread
  have hreference := Json.depth_value?_le hreference
  have hextra := hextra ▸ Json.fieldsDepth_without_le m knownKeys
  simp only [depth, Json.depth]
  omega

theorem Json.depth_mapReference (f : String → String) (v : Json) :
    (v.mapReference f).depth = v.depth := by
  cases v with
  | array parts =>
      rw [mapReference, Json.depth, Json.depth]
      congr 1
      induction parts with
      | nil => rfl
      | cons part parts ih =>
          rw [List.map_cons, itemsDepth, itemsDepth, ih]
          cases part <;> rfl
  | _ => rfl

theorem Instance.depth_mapNames (f : String → String) (i : Instance) :
    (i.mapNames f).depth = i.depth := by
  rw [depth, mapNames, Json.depth_mapReference, depth]

def Architecture.depth (a : Architecture) : Nat :=
  1 + max (1 + listDepth Instance.depth a.instances) (fieldsDepth a.extra)

theorem Architecture.depth_toFields_le (a : Architecture) :
    (Json.object a.toFields).depth ≤ a.depth := by
  have hinstances := depth_plainList_le Instance.depth_toFields_le a.instances
  refine Nat.le_trans (Json.depth_assignAll_le ..) ?_
  simp only [depth, fieldsDepth, Json.depth] at hinstances ⊢
  omega

theorem Architecture.depth_le_of_ofFields (m : Fields) (a : Architecture)
    (hread : ofFields m = .ok a) : a.depth ≤ (Json.object m).depth := by
  obtain ⟨-, -, hinstances, hextra⟩ := ofFields_eq_ok_iff.1 hread
  have hinstances := listDepth_le_of_list Instance.depth_le_of_ofFields hinstances
  have hextra := hextra ▸ Json.fieldsDepth_without_le m knownKeys
  simp only [depth, Json.depth]
  omega

theorem Architecture.depth_mapNames (f : String → String) (a : Architecture) :
    (a.mapNames f).depth = a.depth := by
  rw [depth, mapNames, listDepth_map fun i _ => i.depth_mapNames f, depth]

/-! ## Designs -/

namespace Design

def depth (d : Design) : Nat :=
  1 + max (1 + itemsDepth d.imports)
    (max (1 + listDepth PackageHeader.depth d.headers)
      (max (1 + listDepth Entity.depth d.entities)
        (max (1 + listDepth PackageBody.depth d.bodies)
          (max (1 + listDepth Architecture.depth d.architectures) (fieldsDepth d.extra)))))

theorem depth_toFields_le {d : Design} {w : Fields} (hw : d.toFields = .ok w) :
    (Json.object w).depth ≤ d.depth := by
  obtain ⟨headers, entities, bodies, hheaders, hentities, hbodies, rfl⟩ :=
    toFields_eq_ok_iff.1 hw
  have hheaders := depth_ofKeyed_le PackageHeader.depth_toFields_le hheaders
  have hentities := depth_ofKeyed_le Entity.depth_toFields_le hentities
  have hbodies := depth_ofKeyed_le
    (fun b n hn => Except.ok.inj hn ▸ PackageBody.depth_toFields_le b) hbodies
  have harchitectures := depth_plainList_le Architecture.depth_toFields_le d.architectures
  refine Nat.le_trans (Json.depth_assignAll_le ..) ?_
  simp only [depth, fieldsDepth, Json.depth] at harchitectures ⊢
  omega

/-- A section that is absent is written nevertheless, but the required one nests as deep. -/
theorem depth_le_of_ofFields {m : Fields} {d : Design} (hread : ofFields m = .ok d) :
    d.depth ≤ (Json.object m).depth := by
  obtain ⟨himports, hheaders, hentities, hbodies, harchitectures, hextra⟩ :=
    ofFields_eq_ok_iff.1 hread
  have hentities := listDepth_le_of_keyed Entity.depth_le_of_ofFields hentities
  have hm : 1 ≤ fieldsDepth m := by omega
  have himports : 1 + itemsDepth d.imports ≤ fieldsDepth m := by
    refine depth_le_of_optional rfl hm (fun h => ?_) himports
    have hvalue := Json.depth_value?_le (Fields.array_eq_ok_iff.1 h)
    simpa only [Json.depth] using hvalue
  have hheaders := depth_le_of_optional rfl hm
    (listDepth_le_of_keyed PackageHeader.depth_le_of_ofFields) hheaders
  have hbodies := depth_le_of_optional rfl hm
    (listDepth_le_of_keyed PackageBody.depth_le_of_ofFields) hbodies
  have harchitectures := depth_le_of_optional rfl hm
    (listDepth_le_of_list Architecture.depth_le_of_ofFields) harchitectures
  have hextra := hextra ▸ Json.fieldsDepth_without_le m sections
  simp only [depth, Json.depth]
  omega

theorem depth_mapNames (f : String → String) (d : Design) : (d.mapNames f).depth = d.depth := by
  have himports : itemsDepth (d.imports.map (Json.mapReference f)) = itemsDepth d.imports := by
    induction d.imports with
    | nil => rfl
    | cons v imports ih => rw [List.map_cons, itemsDepth, itemsDepth, ih, v.depth_mapReference f]
  have hbodies : listDepth PackageBody.depth (d.bodies.map (PackageBody.mapNames f)) =
      listDepth PackageBody.depth d.bodies := listDepth_map fun _ _ => rfl
  rw [depth, mapNames, himports, hbodies, listDepth_map fun h _ => h.depth_mapNames f,
    listDepth_map fun e _ => e.depth_mapNames f, listDepth_map fun a _ => a.depth_mapNames f, depth]

theorem depth_arrange (d : Design) : d.arrange.depth = d.depth := by
  rw [depth, arrange_eq, listDepth_map fun h _ => h.depth_arrange,
    listDepth_map fun e _ => e.depth_arrange, depth]

end Design

end HdlInterface
