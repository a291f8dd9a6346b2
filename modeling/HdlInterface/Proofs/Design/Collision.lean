import HdlInterface.Proofs.Design.Canonical
import HdlInterface.Proofs.Design.Declarations

/-!
# Collisions of names

Names can be made canonical unless two declarations of one scope get the same name, and then the
first declaration that repeats a name is reported (`Design.canonical_reports_first_collision`). It
is the same to check each unit as it is added to a design that is empty at first
(`Design.canonical_eq_canonicalOneByOne`).
-/

namespace HdlInterface

/-! ## Names that differ -/

/-- No two generics and no two ports have the same name, once they are renamed. -/
structure Entity.Distinct (f : String → String) (e : Entity) : Prop where
  generics : (e.generics.map fun g => f g.name).Nodup
  ports : (e.ports.filterMap fun p => p.name?.map f).Nodup

/-- In each scope names differ, once they are renamed. -/
structure Design.Distinct (f : String → String) (d : Design) : Prop where
  headers : (d.headers.map fun h => f h.name).Nodup
  components : ∀ h ∈ d.headers, (h.components.map fun c => f c.name).Nodup
  componentInterfaces : ∀ h ∈ d.headers, ∀ c ∈ h.components, c.Distinct f
  entities : (d.entities.map fun e => f e.name).Nodup
  entityInterfaces : ∀ e ∈ d.entities, e.Distinct f
  bodies : (d.bodies.map fun b => f b.name).Nodup

section Distinct

variable {f : String → String}

theorem Entity.firstRepeat_mapNames_eq_none_iff {e : Entity} :
    (e.mapNames f).firstRepeat = none ↔ e.Distinct f := by
  have hports : (e.mapNames f).ports.filterMap Port.name? =
      e.ports.filterMap fun p => p.name?.map f := by
    simp [mapNames, List.filterMap_map, Port.name?_mapNames]
  have hgenerics : (e.mapNames f).generics.map Variable.name =
      e.generics.map fun g => f g.name := by
    simp [mapNames, Function.comp_def, Variable.mapNames]
  rw [firstRepeat_eq_none_iff, hports, hgenerics]
  constructor
  · rintro ⟨hg, hp⟩
    exact ⟨hg, hp⟩
  · rintro ⟨hg, hp⟩
    exact ⟨hg, hp⟩

theorem PackageHeader.firstRepeat_mapNames_eq_none_iff {h : PackageHeader} :
    (h.mapNames f).firstRepeat = none ↔
      (∀ c ∈ h.components, c.Distinct f) ∧ (h.components.map fun c => f c.name).Nodup := by
  have hnames : (h.mapNames f).components.map Entity.name = h.components.map fun c => f c.name := by
    simp [mapNames, Function.comp_def, Entity.mapNames]
  rw [firstRepeat_eq_none_iff, hnames, mapNames, List.forall_mem_map]
  simp only [Entity.firstRepeat_mapNames_eq_none_iff]

theorem Design.firstRepeat_mapNames_eq_none_iff {d : Design} :
    (d.mapNames f).firstRepeat = none ↔ d.Distinct f := by
  have hunique : (d.mapNames f).UniqueNames ↔ (d.headers.map fun h => f h.name).Nodup ∧
      (d.entities.map fun e => f e.name).Nodup ∧ (d.bodies.map fun b => f b.name).Nodup := by
    constructor
    · rintro ⟨hheaders, hentities, hbodies⟩
      rw [mapNames, List.map_map] at hheaders hentities hbodies
      exact ⟨hheaders, hentities, hbodies⟩
    · rintro ⟨hheaders, hentities, hbodies⟩
      constructor <;> rwa [mapNames, List.map_map]
  rw [firstRepeat_eq_none_iff, hunique]
  simp only [mapNames, List.forall_mem_map, PackageHeader.firstRepeat_mapNames_eq_none_iff,
    Entity.firstRepeat_mapNames_eq_none_iff]
  constructor
  · rintro ⟨hinside, hinterfaces, hheaders, hentities, hbodies⟩
    exact ⟨hheaders, fun h hh => (hinside h hh).2, fun h hh => (hinside h hh).1, hentities,
      hinterfaces, hbodies⟩
  · rintro ⟨hheaders, hcomponents, hinside, hentities, hinterfaces, hbodies⟩
    exact ⟨fun h hh => ⟨hinside h hh, hcomponents h hh⟩, hinterfaces, hheaders, hentities, hbodies⟩

end Distinct

/-! ## One by one -/

/-- Adds a thing to those before it, unless its name is taken. -/
def addNamed {α : Type} (name : α → String) (done : List α) (x : α) :
    Except DocumentError (List α) :=
  if name x ∈ done.map name then .error (.redefinition (name x)) else .ok (done ++ [x])

/-- Components with canonical names, each added to those before it. -/
def PackageHeader.canonicalOneByOne (l : Language) (h : PackageHeader) :
    Except DocumentError PackageHeader := do
  let components ← h.components.foldlM
    (fun done c => do addNamed Entity.name done (← c.canonical l)) []
  return { h with name := l.canonical h.name, components }

/-- Units with canonical names, each inserted into a design that holds those before it. -/
def Design.canonicalOneByOne (l : Language) (d : Design) : Except DocumentError Design := do
  let start : Design :=
    { empty with
      imports := d.imports.map (Json.mapReference l.canonical)
      architectures := d.architectures.map (Architecture.mapNames l.canonical)
      extra := d.extra }
  let withHeaders ← d.headers.foldlM
    (fun done h => do done.insertHeader (← h.canonicalOneByOne l)) start
  let withEntities ← d.entities.foldlM
    (fun done e => do done.insertEntity (← e.canonical l)) withHeaders
  d.bodies.foldlM (fun done b => done.insertBody (b.mapNames l.canonical)) withEntities

section OneByOne

variable {α : Type} {inner : α → Option String} {name : α → String}

theorem firstRepeated_congr {seen seen' : List String} (h : ∀ n, n ∈ seen ↔ n ∈ seen')
    (xs : List α) : firstRepeated inner name seen xs = firstRepeated inner name seen' xs := by
  induction xs generalizing seen seen' with
  | nil => rfl
  | cons x xs ih =>
      have hrest : firstRepeated inner name (name x :: seen) xs =
          firstRepeated inner name (name x :: seen') xs :=
        ih fun n => by rw [List.mem_cons, List.mem_cons, h]
      simp only [firstRepeated, h, hrest]

/-- Two searches, one after the other, are one search. -/
theorem unlessRepeated_bind {r s : Option String} {x y : α} {g : α → Except DocumentError α}
    (h : g x = unlessRepeated (fun _ => s) y) :
    (unlessRepeated (fun _ => r) x >>= g) = unlessRepeated (fun _ => r.or s) y := by
  cases r with
  | some n => rfl
  | none => exact h

/-- Things that are searched and added one by one are searched in one go. -/
theorem foldlM_addNamed (f : α → α) (done xs : List α) :
    xs.foldlM (fun done x => do addNamed name done (← unlessRepeated inner (f x))) done =
      unlessRepeated (fun _ => firstRepeated inner name (done.map name) (xs.map f))
        (done ++ xs.map f) := by
  induction xs generalizing done with
  | nil => simp [unlessRepeated, firstRepeated, pure, Except.pure]
  | cons x xs ih =>
      rw [List.foldlM_cons, List.map_cons, firstRepeated, unlessRepeated]
      cases inner (f x) with
      | some n => rfl
      | none =>
          rw [Option.none_or, ok_bind, addNamed]
          split_ifs with h
          · rfl
          · have hseen : firstRepeated inner name ((done ++ [f x]).map name) (xs.map f) =
                firstRepeated inner name (name (f x) :: done.map name) (xs.map f) :=
              firstRepeated_congr (by simp [or_comm]) _
            rw [ok_bind, ih, hseen, List.append_assoc, List.singleton_append]

/-- Things that are searched and inserted into a design one by one are searched in one go. -/
theorem foldlM_insert {insert : Design → α → Except DocumentError Design} {put : List α → Design}
    (hinsert : ∀ done x, insert (put done) x = (addNamed name done x).map put) (f : α → α)
    (xs : List α) :
    xs.foldlM (fun d x => do insert d (← unlessRepeated inner (f x))) (put []) =
      unlessRepeated (fun _ => firstRepeated inner name [] (xs.map f)) (put (xs.map f)) := by
  have hput : ∀ done, xs.foldlM (fun d x => do insert d (← unlessRepeated inner (f x))) (put done) =
      (xs.foldlM (fun done x => do addNamed name done (← unlessRepeated inner (f x))) done).map
        put := by
    induction xs with
    | nil => exact fun _ => rfl
    | cons x xs ih =>
        intro done
        rw [List.foldlM_cons, List.foldlM_cons]
        cases unlessRepeated inner (f x) with
        | error e => rfl
        | ok y =>
            rw [ok_bind, ok_bind, hinsert]
            cases addNamed name done y with
            | error e => rfl
            | ok done => exact ih done
  rw [hput, foldlM_addNamed, List.map_nil, List.nil_append]
  cases firstRepeated inner name [] (xs.map f) <;> rfl

theorem firstRepeated_eq_firstRepeat (xs : List α) :
    firstRepeated (fun _ => none) name [] xs = firstRepeat (xs.map name) := by
  suffices h : ∀ seen, firstRepeated (fun _ => none) name seen xs =
      firstRepeated (fun _ => none) id seen (xs.map name) from h []
  induction xs with
  | nil => exact fun _ => rfl
  | cons x xs ih => exact fun seen => by simp only [firstRepeated, List.map_cons, ih, id]

end OneByOne

/-! ## Inserting units -/

theorem isSome_find?_iff {α : Type} {name : α → String} {xs : List α} {n : String} :
    (xs.find? fun x => name x == n).isSome = true ↔ n ∈ xs.map name := by
  simp [List.find?_isSome]

namespace Design

variable (d : Design)

theorem insertHeader_eq (done : List PackageHeader) (h : PackageHeader) :
    { d with headers := done }.insertHeader h =
      (addNamed PackageHeader.name done h).map fun headers => { d with headers } := by
  rw [insertHeader, header?, addNamed]
  simp only [isSome_find?_iff]
  split_ifs <;> rfl

theorem insertEntity_eq (done : List Entity) (e : Entity) :
    { d with entities := done }.insertEntity e =
      (addNamed Entity.name done e).map fun entities => { d with entities } := by
  rw [insertEntity, entity?, addNamed]
  simp only [isSome_find?_iff]
  split_ifs <;> rfl

theorem insertBody_eq (done : List PackageBody) (b : PackageBody) :
    { d with bodies := done }.insertBody b =
      (addNamed PackageBody.name done b).map fun bodies => { d with bodies } := by
  rw [insertBody, body?, addNamed]
  simp only [isSome_find?_iff]
  split_ifs <;> rfl

end Design

theorem PackageHeader.canonical_eq_canonicalOneByOne (l : Language) (h : PackageHeader) :
    h.canonical l = h.canonicalOneByOne l := by
  have hcomponents : h.components.foldlM
      (fun done c => do addNamed Entity.name done (← c.canonical l)) [] =
      unlessRepeated (fun _ => (h.mapNames l.canonical).firstRepeat)
        (h.mapNames l.canonical).components :=
    foldlM_addNamed (Entity.mapNames l.canonical) [] h.components
  rw [canonicalOneByOne, hcomponents, canonical, unlessRepeated, unlessRepeated]
  cases (h.mapNames l.canonical).firstRepeat <;> rfl

theorem Design.canonical_eq_canonicalOneByOne (l : Language) (d : Design) :
    d.canonical l = d.canonicalOneByOne l := by
  let start : Design :=
    { empty with
      imports := d.imports.map (Json.mapReference l.canonical)
      architectures := d.architectures.map (Architecture.mapNames l.canonical)
      extra := d.extra }
  let withHeaders : Design := { start with headers := (d.mapNames l.canonical).headers }
  let withEntities : Design := { withHeaders with entities := (d.mapNames l.canonical).entities }
  have hheaders : d.headers.foldlM
      (fun done h => do done.insertHeader (← h.canonicalOneByOne l)) start =
      unlessRepeated (fun _ => firstRepeated PackageHeader.firstRepeat PackageHeader.name []
        (d.mapNames l.canonical).headers) withHeaders := by
    simp only [← PackageHeader.canonical_eq_canonicalOneByOne]
    exact foldlM_insert start.insertHeader_eq (PackageHeader.mapNames l.canonical) d.headers
  have hentities : d.entities.foldlM
      (fun done e => do done.insertEntity (← e.canonical l)) withHeaders =
      unlessRepeated (fun _ => firstRepeated Entity.firstRepeat Entity.name []
        (d.mapNames l.canonical).entities) withEntities :=
    foldlM_insert withHeaders.insertEntity_eq (Entity.mapNames l.canonical) d.entities
  have hbodies : d.bodies.foldlM
      (fun done b => done.insertBody (b.mapNames l.canonical)) withEntities =
      unlessRepeated (fun _ => HdlInterface.firstRepeat
        ((d.mapNames l.canonical).bodies.map PackageBody.name)) (d.mapNames l.canonical) := by
    rw [← firstRepeated_eq_firstRepeat]
    exact @foldlM_insert _ (fun _ => none) _ _ _ withEntities.insertBody_eq
      (PackageBody.mapNames l.canonical) d.bodies
  symm
  calc d.canonicalOneByOne l
      = (unlessRepeated (fun _ => firstRepeated PackageHeader.firstRepeat PackageHeader.name []
          (d.mapNames l.canonical).headers) withHeaders >>= fun done => do
            let done ← d.entities.foldlM (fun done e => do done.insertEntity (← e.canonical l)) done
            d.bodies.foldlM (fun done b => done.insertBody (b.mapNames l.canonical)) done) := by
        rw [← hheaders]
        rfl
    _ = unlessRepeated (fun _ => (d.mapNames l.canonical).firstRepeat)
          (d.mapNames l.canonical) := by
        refine unlessRepeated_bind ?_
        rw [hentities]
        exact unlessRepeated_bind hbodies

theorem unlessRepeated_eq_error_iff {α : Type} {firstRepeat : α → Option String} {x : α}
    {error : DocumentError} : unlessRepeated firstRepeat x = .error error ↔
      ∃ n, firstRepeat x = some n ∧ error = .redefinition n := by
  unfold unlessRepeated
  split
  · next n h => simp [h, eq_comm]
  · next h => simp [h]

/-- Names can be made canonical exactly if they differ in each scope. Otherwise the first
declaration that repeats a name of its scope is reported, and nothing else ever is. -/
theorem Design.canonical_reports_first_collision (l : Language) (d : Design) :
    d.canonical l = d.canonicalOneByOne l ∧
      ((∃ e, d.canonical l = .ok e) ↔ d.Distinct l.canonical) ∧
      ∀ error, d.canonical l = .error error ↔ ∃ scope name,
        IsFirstRepeat (d.declarations.map (Declaration.mapName l.canonical)) (scope, name) ∧
          error = .redefinition name := by
  refine ⟨d.canonical_eq_canonicalOneByOne l, ?_, fun error => ?_⟩
  · rw [← firstRepeat_mapNames_eq_none_iff]
    simp only [canonical_eq_ok_iff, exists_and_left, exists_eq', and_true]
  · rw [← declarations_mapNames, canonical, unlessRepeated_eq_error_iff]
    simp only [firstRepeat_eq_some_iff]
    constructor
    · rintro ⟨n, ⟨scope, hrepeat⟩, rfl⟩
      exact ⟨scope, n, hrepeat, rfl⟩
    · rintro ⟨scope, n, hrepeat, rfl⟩
      exact ⟨n, ⟨scope, hrepeat⟩, rfl⟩

end HdlInterface
