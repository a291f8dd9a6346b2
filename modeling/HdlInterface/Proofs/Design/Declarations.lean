import HdlInterface.Design.Canonical
import HdlInterface.Proofs.Document.Field

/-!
# The declarations of a design

All declarations of a design are listed with their scopes, in the order in which they are searched
for a repeated name (`Design.declarations`). The search descends into units, components and
interfaces, with the names of each scope kept apart; what it finds is the first declaration of the
whole list that stands in it before (`Design.firstRepeat_eq_some_iff`).
-/

namespace HdlInterface

/-! ## The first repeated item -/

section Repeated

variable {α : Type}

/-- The item is the first one of the list that stands in it before. -/
def IsFirstRepeat (xs : List α) (x : α) : Prop :=
  ∃ before after, xs = before ++ x :: after ∧ before.Nodup ∧ x ∈ before

variable [DecidableEq α] {seen seen' xs ys : List α} {x : α}

/-- The first item that is among `seen` or stands before in the list. -/
def firstDuplicate (seen : List α) : List α → Option α
  | [] => none
  | x :: xs => if x ∈ seen then some x else firstDuplicate (x :: seen) xs

/-- Only those seen items count that are in the list. -/
theorem firstDuplicate_congr (h : ∀ x ∈ xs, x ∈ seen ↔ x ∈ seen') :
    firstDuplicate seen xs = firstDuplicate seen' xs := by
  induction xs generalizing seen seen' with
  | nil => rfl
  | cons x xs ih =>
      rw [List.forall_mem_cons] at h
      have hrest : firstDuplicate (x :: seen) xs = firstDuplicate (x :: seen') xs :=
        ih fun y hy => by rw [List.mem_cons, List.mem_cons, h.2 y hy]
      simp only [firstDuplicate, h.1, hrest]

theorem firstDuplicate_of_disjoint (h : ∀ x ∈ xs, x ∉ seen) :
    firstDuplicate seen xs = firstDuplicate [] xs :=
  firstDuplicate_congr fun x hx => by simp [h x hx]

theorem firstDuplicate_append : firstDuplicate seen (xs ++ ys) =
    (firstDuplicate seen xs).or (firstDuplicate (xs.reverse ++ seen) ys) := by
  induction xs generalizing seen with
  | nil => rfl
  | cons x xs ih =>
      rw [List.cons_append, firstDuplicate, firstDuplicate, ih, List.reverse_cons,
        List.append_assoc, List.singleton_append]
      split_ifs <;> rfl

theorem firstDuplicate_append_of_disjoint (h : ∀ y ∈ ys, y ∉ xs) :
    firstDuplicate [] (xs ++ ys) = (firstDuplicate [] xs).or (firstDuplicate [] ys) := by
  have hfresh : firstDuplicate (xs.reverse ++ []) ys = firstDuplicate [] ys :=
    firstDuplicate_of_disjoint fun y hy => by simpa using h y hy
  rw [firstDuplicate_append, hfresh]

theorem firstDuplicate_eq_some_iff : firstDuplicate seen xs = some x ↔
    ∃ before after, xs = before ++ x :: after ∧ before.Nodup ∧ (∀ y ∈ before, y ∉ seen) ∧
      (x ∈ seen ∨ x ∈ before) := by
  induction xs generalizing seen with
  | nil => simp [firstDuplicate]
  | cons y ys ih =>
      rw [firstDuplicate]
      split_ifs with hy
      · constructor
        · rintro ⟨⟩
          exact ⟨[], ys, rfl, .nil, nofun, .inl hy⟩
        · rintro ⟨before, after, h, -, hseen, -⟩
          cases before with
          | nil => rw [(List.cons.inj h).1]
          | cons z before =>
              obtain ⟨rfl, -⟩ := List.cons.inj h
              exact absurd hy (hseen y List.mem_cons_self)
      · rw [ih]
        constructor
        · rintro ⟨before, after, rfl, hnodup, hseen, hx⟩
          refine ⟨y :: before, after, rfl, List.nodup_cons.2 ⟨fun h => ?_, hnodup⟩, ?_, ?_⟩
          · exact hseen y h List.mem_cons_self
          · exact List.forall_mem_cons.2 ⟨hy, fun z hz h => hseen z hz (List.mem_cons_of_mem _ h)⟩
          · rw [List.mem_cons] at hx ⊢
            tauto
        · rintro ⟨before, after, h, hnodup, hseen, hx⟩
          cases before with
          | nil =>
              obtain ⟨rfl, -⟩ := List.cons.inj h
              exact absurd (hx.resolve_right List.not_mem_nil) hy
          | cons z before =>
              obtain ⟨rfl, rfl⟩ := List.cons.inj h
              rw [List.nodup_cons] at hnodup
              rw [List.forall_mem_cons] at hseen
              refine ⟨before, after, rfl, hnodup.2, fun z hz h => ?_, ?_⟩
              · rcases List.mem_cons.1 h with rfl | h
                · exact hnodup.1 hz
                · exact hseen.2 z hz h
              · rw [List.mem_cons] at hx ⊢
                tauto

theorem firstDuplicate_nil_eq_some_iff : firstDuplicate [] xs = some x ↔ IsFirstRepeat xs x := by
  simp [firstDuplicate_eq_some_iff, IsFirstRepeat]

end Repeated

/-! ## Declarations and their scopes -/

/-- Where an interface stands. -/
inductive Place
  | component (header place : Nat)
  | entity (place : Nat)
deriving DecidableEq

/-- The scopes of names, by the places of the units that they belong to. -/
inductive Scope
  | headers
  | components (header : Nat)
  | entities
  | bodies
  | generics (place : Place)
  | ports (place : Place)
deriving DecidableEq

/-- A name, with the scope that it is declared in. -/
abbrev Declaration := Scope × String

/-- The declarations of named things, from a place on. What is declared inside a thing comes before
its own name. -/
def declarations {α : Type} (inside : Nat → α → List Declaration) (scope : Scope)
    (name : α → String) (place : Nat) : List α → List Declaration
  | [] => []
  | x :: xs => inside place x ++ (scope, name x) :: declarations inside scope name (place + 1) xs

/-- The generics, and the ports that have a signal. -/
def Entity.interface (place : Place) (e : Entity) : List Declaration :=
  (e.generics.map Variable.name).map (.generics place, ·) ++
    (e.ports.filterMap Port.name?).map (.ports place, ·)

/-- The components, each after its interface. -/
def PackageHeader.interface (place : Nat) (h : PackageHeader) : List Declaration :=
  declarations (fun i => Entity.interface (.component place i)) (.components place) Entity.name 0
    h.components

namespace Design

def headerDeclarations (d : Design) : List Declaration :=
  HdlInterface.declarations PackageHeader.interface .headers PackageHeader.name 0 d.headers

def entityDeclarations (d : Design) : List Declaration :=
  HdlInterface.declarations (fun i => Entity.interface (.entity i)) .entities Entity.name 0
    d.entities

def bodyDeclarations (d : Design) : List Declaration :=
  (d.bodies.map PackageBody.name).map (.bodies, ·)

/-- Headers come first, then entities, then bodies. -/
def declarations (d : Design) : List Declaration :=
  d.headerDeclarations ++ (d.entityDeclarations ++ d.bodyDeclarations)

end Design

/-! ## One search for all scopes -/

section Search

variable {α : Type} {inside : Nat → α → List Declaration} {scope : Scope} {name : α → String}

/-- A declaration of the list is that of a thing, or stands inside one. -/
theorem mem_declarations {place : Nat} {xs : List α} {x : Declaration}
    (h : x ∈ declarations inside scope name place xs) : x.1 = scope ∨ ∃ i y, x ∈ inside i y := by
  induction xs generalizing place with
  | nil => cases h
  | cons y ys ih =>
      rw [declarations, List.mem_append, List.mem_cons] at h
      rcases h with h | rfl | h
      · exact .inr ⟨place, y, h⟩
      · exact .inl rfl
      · exact ih h

/-- A search with the names of one scope finds what the search of all declarations finds, if no
scope inside a thing is that of the things or is found inside another. -/
theorem firstRepeated_eq_firstDuplicate {inner : α → Option String}
    (hinner : ∀ i x, inner x = (firstDuplicate [] (inside i x)).map Prod.snd)
    (hscope : ∀ i x z, z ∈ inside i x → z.1 ≠ scope)
    (hinside : ∀ i j x y z, i ≠ j → z ∈ inside i x → z ∉ inside j y)
    {place : Nat} {names : List String} {seen : List Declaration} (xs : List α)
    (hnames : ∀ n, n ∈ names ↔ (scope, n) ∈ seen)
    (hseen : ∀ i x z, place ≤ i → z ∈ inside i x → z ∉ seen) :
    firstRepeated inner name names xs =
      (firstDuplicate seen (declarations inside scope name place xs)).map Prod.snd := by
  -- the names are those that were seen in the scope; all else that was seen stands inside earlier
  -- things, where the rest of the list does not look
  induction xs generalizing place names seen with
  | nil => rfl
  | cons x xs ih =>
      have hfresh : firstDuplicate seen (inside place x) = firstDuplicate [] (inside place x) :=
        firstDuplicate_of_disjoint fun z hz => hseen place x z (Nat.le_refl _) hz
      have hmem : ∀ n, (scope, n) ∈ (inside place x).reverse ++ seen ↔ n ∈ names := by
        intro n
        rw [List.mem_append, List.mem_reverse, hnames, or_iff_right]
        exact fun h => hscope place x _ h rfl
      have hrest : firstRepeated inner name (name x :: names) xs =
          (firstDuplicate ((scope, name x) :: ((inside place x).reverse ++ seen))
            (declarations inside scope name (place + 1) xs)).map Prod.snd := by
        refine ih (fun n => ?_) fun i y z hi hz h => ?_
        · rw [List.mem_cons, List.mem_cons, hmem, Prod.mk.injEq, and_iff_right rfl]
        · rw [List.mem_cons, List.mem_append, List.mem_reverse] at h
          rcases h with rfl | h | h
          · exact hscope i y _ hz rfl
          · exact hinside i place y x z (by omega) hz h
          · exact hseen i y z (by omega) hz h
      rw [firstRepeated, declarations, firstDuplicate_append, hfresh, Option.map_or, ← hinner,
        firstDuplicate, hrest]
      simp only [hmem]
      split_ifs <;> rfl

theorem firstRepeat_eq_firstDuplicate (scope : Scope) (names : List String) :
    firstRepeat names = (firstDuplicate [] (names.map (scope, ·))).map Prod.snd := by
  suffices h : ∀ seen : List String, firstRepeated (fun _ => none) id seen names =
      (firstDuplicate (seen.map (scope, ·)) (names.map (scope, ·))).map Prod.snd from h []
  induction names with
  | nil => exact fun _ => rfl
  | cons n names ih =>
      intro seen
      have hmem : (scope, n) ∈ seen.map (scope, ·) ↔ n ∈ seen := by simp
      rw [firstRepeated, Option.none_or, ih, List.map_cons, List.map_cons, firstDuplicate]
      simp only [hmem, id]
      split_ifs <;> rfl

end Search

theorem Entity.scope_of_mem_interface {place : Place} {e : Entity} {x : Declaration}
    (h : x ∈ e.interface place) : x.1 = .generics place ∨ x.1 = .ports place := by
  rw [interface, List.mem_append, List.mem_map, List.mem_map] at h
  rcases h with ⟨n, -, rfl⟩ | ⟨n, -, rfl⟩
  · exact .inl rfl
  · exact .inr rfl

theorem Entity.notMem_interface_of_ne {p q : Place} (hpq : p ≠ q) {e e' : Entity} {x : Declaration}
    (h : x ∈ e.interface p) : x ∉ e'.interface q := by
  intro h'
  rcases scope_of_mem_interface h with hp | hp <;>
    rcases scope_of_mem_interface h' with hq | hq <;> simp_all

theorem Entity.firstRepeat_eq_firstDuplicate (place : Place) (e : Entity) :
    e.firstRepeat = (firstDuplicate [] (e.interface place)).map Prod.snd := by
  have hports : ∀ x ∈ (e.ports.filterMap Port.name?).map (Scope.ports place, ·),
      x ∉ (e.generics.map Variable.name).map (Scope.generics place, ·) := by
    intro x hx hx'
    obtain ⟨n, -, rfl⟩ := List.mem_map.1 hx
    obtain ⟨m, -, h⟩ := List.mem_map.1 hx'
    cases (Prod.mk.inj h).1
  rw [firstRepeat, interface, firstDuplicate_append_of_disjoint hports, Option.map_or,
    ← HdlInterface.firstRepeat_eq_firstDuplicate, ← HdlInterface.firstRepeat_eq_firstDuplicate]

theorem PackageHeader.scope_of_mem_interface {place : Nat} {h : PackageHeader} {x : Declaration}
    (hx : x ∈ h.interface place) : x.1 = .components place ∨
      ∃ i, x.1 = .generics (.component place i) ∨ x.1 = .ports (.component place i) := by
  rcases mem_declarations hx with hx | ⟨i, c, hx⟩
  · exact .inl hx
  · exact .inr ⟨i, Entity.scope_of_mem_interface hx⟩

theorem PackageHeader.firstRepeat_eq_firstDuplicate (place : Nat) (h : PackageHeader) :
    h.firstRepeat = (firstDuplicate [] (h.interface place)).map Prod.snd := by
  refine firstRepeated_eq_firstDuplicate (fun i c => c.firstRepeat_eq_firstDuplicate _)
    (fun i c x hx => ?_) (fun i j c c' x hij => ?_) h.components (by simp) (by simp)
  · rcases Entity.scope_of_mem_interface hx with hx | hx <;> simp [hx]
  · exact Entity.notMem_interface_of_ne (by simpa using hij)

namespace Design

variable {d : Design}

theorem scope_of_mem_headerDeclarations {x : Declaration} (h : x ∈ d.headerDeclarations) :
    x.1 = .headers ∨ ∃ i, x.1 = .components i ∨
      ∃ j, x.1 = .generics (.component i j) ∨ x.1 = .ports (.component i j) := by
  rcases mem_declarations h with h | ⟨i, k, h⟩
  · exact .inl h
  · exact .inr ⟨i, PackageHeader.scope_of_mem_interface h⟩

theorem scope_of_mem_entityDeclarations {x : Declaration} (h : x ∈ d.entityDeclarations) :
    x.1 = .entities ∨ ∃ i, x.1 = .generics (.entity i) ∨ x.1 = .ports (.entity i) := by
  rcases mem_declarations h with h | ⟨i, e, h⟩
  · exact .inl h
  · exact .inr ⟨i, Entity.scope_of_mem_interface h⟩

theorem scope_of_mem_bodyDeclarations {x : Declaration} (h : x ∈ d.bodyDeclarations) :
    x.1 = .bodies := by
  obtain ⟨n, -, rfl⟩ := List.mem_map.1 h
  rfl

theorem firstRepeated_headers :
    firstRepeated PackageHeader.firstRepeat PackageHeader.name [] d.headers =
      (firstDuplicate [] d.headerDeclarations).map Prod.snd := by
  refine firstRepeated_eq_firstDuplicate (fun i h => h.firstRepeat_eq_firstDuplicate i)
    (fun i h x hx => ?_) (fun i j h k x hij hx hx' => ?_) d.headers (by simp) (by simp)
  · rcases PackageHeader.scope_of_mem_interface hx with hx | ⟨j, hx | hx⟩ <;> simp [hx]
  · rcases PackageHeader.scope_of_mem_interface hx with hx | ⟨m, hx | hx⟩ <;>
      rcases PackageHeader.scope_of_mem_interface hx' with hx' | ⟨n, hx' | hx'⟩ <;> simp_all

theorem firstRepeated_entities :
    firstRepeated Entity.firstRepeat Entity.name [] d.entities =
      (firstDuplicate [] d.entityDeclarations).map Prod.snd := by
  refine firstRepeated_eq_firstDuplicate (fun i e => e.firstRepeat_eq_firstDuplicate _)
    (fun i e x hx => ?_) (fun i j e e' x hij => ?_) d.entities (by simp) (by simp)
  · rcases Entity.scope_of_mem_interface hx with hx | hx <;> simp [hx]
  · exact Entity.notMem_interface_of_ne (by simpa using hij)

/-- The searches of all scopes are one search of all declarations. -/
theorem firstRepeat_eq_firstDuplicate (d : Design) :
    d.firstRepeat = (firstDuplicate [] d.declarations).map Prod.snd := by
  have hbodies : ∀ x ∈ d.bodyDeclarations, x ∉ d.entityDeclarations := by
    intro x hx h
    have hx := scope_of_mem_bodyDeclarations hx
    rcases scope_of_mem_entityDeclarations h with h | ⟨i, h | h⟩ <;> simp_all
  have hothers : ∀ x ∈ d.entityDeclarations ++ d.bodyDeclarations, x ∉ d.headerDeclarations := by
    intro x hx h
    have h := scope_of_mem_headerDeclarations h
    rcases List.mem_append.1 hx with hx | hx
    · rcases scope_of_mem_entityDeclarations hx with hx | ⟨i, hx | hx⟩ <;> simp [hx] at h
    · simp [scope_of_mem_bodyDeclarations hx] at h
  rw [firstRepeat, firstRepeated_headers, firstRepeated_entities,
    HdlInterface.firstRepeat_eq_firstDuplicate .bodies, declarations,
    firstDuplicate_append_of_disjoint hothers, firstDuplicate_append_of_disjoint hbodies,
    Option.map_or, Option.map_or]
  rfl

theorem firstRepeat_eq_some_iff {d : Design} {n : String} :
    d.firstRepeat = some n ↔ ∃ scope, IsFirstRepeat d.declarations (scope, n) := by
  simp only [firstRepeat_eq_firstDuplicate, Option.map_eq_some_iff, Prod.exists,
    firstDuplicate_nil_eq_some_iff, exists_eq_right]

end Design

/-! ## Declarations of renamed things -/

/-- The declaration in the same scope with the other name. -/
def Declaration.mapName (f : String → String) (x : Declaration) : Declaration := (x.1, f x.2)

section Renamed

variable (f : String → String)

theorem declarations_map {α : Type} {inside : Nat → α → List Declaration} {scope : Scope}
    {name : α → String} {g : α → α}
    (hinside : ∀ i x, inside i (g x) = (inside i x).map (Declaration.mapName f))
    (hname : ∀ x, name (g x) = f (name x)) (place : Nat) (xs : List α) :
    declarations inside scope name place (xs.map g) =
      (declarations inside scope name place xs).map (Declaration.mapName f) := by
  induction xs generalizing place with
  | nil => rfl
  | cons x xs ih =>
      rw [List.map_cons, declarations, declarations, hinside, hname, ih, List.map_append,
        List.map_cons]
      rfl

theorem Port.name?_mapNames (p : Port Variable) : (p.mapNames f).name? = p.name?.map f := by
  cases h : p.signal <;> simp [name?, mapNames, h, Variable.mapNames]

theorem Entity.interface_mapNames (place : Place) (e : Entity) :
    (e.mapNames f).interface place = (e.interface place).map (Declaration.mapName f) := by
  simp [interface, mapNames, Declaration.mapName, Variable.mapNames, List.filterMap_map,
    Port.name?_mapNames, List.map_filterMap, Function.comp_def]

theorem PackageHeader.interface_mapNames (place : Nat) (h : PackageHeader) :
    (h.mapNames f).interface place = (h.interface place).map (Declaration.mapName f) := by
  rw [interface, interface, mapNames]
  exact declarations_map f (fun _ (c : Entity) => c.interface_mapNames f _) (fun _ => rfl) 0
      h.components

theorem Design.declarations_mapNames (d : Design) :
    (d.mapNames f).declarations = d.declarations.map (Declaration.mapName f) := by
  have hheaders : (d.mapNames f).headerDeclarations =
      d.headerDeclarations.map (Declaration.mapName f) := by
    rw [headerDeclarations, headerDeclarations, mapNames]
    exact declarations_map f (fun i (h : PackageHeader) => h.interface_mapNames f i)
      (fun _ => rfl) 0 d.headers
  have hentities : (d.mapNames f).entityDeclarations =
      d.entityDeclarations.map (Declaration.mapName f) := by
    rw [entityDeclarations, entityDeclarations, mapNames]
    exact declarations_map f (fun i (e : Entity) => e.interface_mapNames f (.entity i))
      (fun _ => rfl) 0 d.entities
  have hbodies : (d.mapNames f).bodyDeclarations =
      d.bodyDeclarations.map (Declaration.mapName f) := by
    simp [bodyDeclarations, mapNames, Declaration.mapName, PackageBody.mapNames]
  rw [declarations, declarations, hheaders, hentities, hbodies, List.map_append, List.map_append]

end Renamed

end HdlInterface
