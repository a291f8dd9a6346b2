import HdlInterface.Proofs.Design.Reachable

/-!
# Insertions

A run of insertions keeps the first unit of each name and refuses the later ones, kind by kind
(`Design.insertions_keep_first`).
-/

namespace HdlInterface

/-! ## The first of each name -/

section FirstOfEachName

variable {α : Type} {name : α → String}

/-- The things in a list whose name no earlier one bears. -/
def firstOfEachName (name : α → String) (xs : List α) : List α :=
  (xs.zipIdx.filter fun p => name p.1 ∉ (xs.take p.2).map name).map Prod.fst

theorem firstOfEachName_append_singleton (xs : List α) (x : α) :
    firstOfEachName name (xs ++ [x]) =
      firstOfEachName name xs ++ if name x ∈ xs.map name then [] else [x] := by
  -- up to its place, a thing has the same things before it in both lists
  have hold : xs.zipIdx.filter (fun p => name p.1 ∉ ((xs ++ [x]).take p.2).map name) =
      xs.zipIdx.filter fun p => name p.1 ∉ (xs.take p.2).map name :=
    List.filter_congr fun p hp => by
      rw [List.take_append_of_le_length (Nat.le_of_lt (List.snd_lt_of_mem_zipIdx hp))]
  rw [firstOfEachName, List.zipIdx_append, List.filter_append, List.map_append, hold]
  by_cases hx : name x ∈ xs.map name
  · simp [firstOfEachName, hx]
  · simp [firstOfEachName, hx]

theorem mem_names_firstOfEachName {xs : List α} {n : String} :
    n ∈ (firstOfEachName name xs).map name ↔ n ∈ xs.map name := by
  induction xs using List.reverseRecOn with
  | nil => rfl
  | append_singleton xs x ih =>
      rw [firstOfEachName_append_singleton, List.map_append, List.map_append, List.mem_append,
        List.mem_append, ih]
      by_cases hx : name x ∈ xs.map name
      · rw [if_pos hx, List.map_nil, List.map_singleton, List.mem_singleton]
        constructor
        · exact fun h => .inl (h.resolve_right (List.not_mem_nil))
        · rintro (h | rfl)
          · exact .inl h
          · exact .inl hx
      · rw [if_neg hx]

/-- What is added to the things before it: nothing, if its name is taken. -/
def untaken (name : α → String) (done : List α) : Option α → List α
  | none => []
  | some x => if name x ∈ done.map name then [] else [x]

theorem firstOfEachName_append_toList (xs : List α) (x : Option α) :
    firstOfEachName name (xs ++ x.toList) =
      firstOfEachName name xs ++ untaken name (firstOfEachName name xs) x := by
  cases x with
  | none => rw [Option.toList_none, untaken, List.append_nil, List.append_nil]
  | some x =>
      rw [Option.toList_some, untaken, firstOfEachName_append_singleton,
        if_congr mem_names_firstOfEachName.symm rfl rfl]

/-- A name finds the same thing, whether the later ones are there or not. -/
theorem find?_firstOfEachName (xs : List α) (n : String) :
    (firstOfEachName name xs).find? (fun x => name x == n) = xs.find? fun x => name x == n := by
  induction xs using List.reverseRecOn with
  | nil => rfl
  | append_singleton xs x ih =>
      rw [firstOfEachName_append_singleton, List.find?_append, List.find?_append, ih]
      by_cases hx : name x ∈ xs.map name
      · rw [if_pos hx, List.find?_nil, Option.or_none]
        by_cases hn : name x = n
        · obtain ⟨y, hy⟩ := Option.isSome_iff_exists.1 (isSome_find?_iff.2 (hn ▸ hx))
          rw [hy, Option.some_or]
        · simp [hn]
      · rw [if_neg hx]

end FirstOfEachName

/-! ## Insertions -/

/-- The kinds of units that are found by name. -/
inductive UnitKind
  | header
  | entity
  | body
deriving DecidableEq

/-- A unit that is inserted into a design. -/
inductive Insertion
  | header (h : PackageHeader)
  | entity (e : Entity)
  | body (b : PackageBody)

namespace Insertion

def change : Insertion → Change
  | header h => .insertHeader h
  | entity e => .insertEntity e
  | body b => .insertBody b

def kind : Insertion → UnitKind
  | header _ => .header
  | entity _ => .entity
  | body _ => .body

def name : Insertion → String
  | header h => h.name
  | entity e => e.name
  | body b => b.name

def header? : Insertion → Option PackageHeader
  | header h => some h
  | _ => none

def entity? : Insertion → Option Entity
  | entity e => some e
  | _ => none

def body? : Insertion → Option PackageBody
  | body b => some b
  | _ => none

section Kinds

variable {α : Type} {nameOf : α → String} {unit? : Insertion → Option α} {k : UnitKind}

theorem filterMap_append_singleton (us : List Insertion) (u : Insertion) :
    (us ++ [u]).filterMap unit? = us.filterMap unit? ++ (unit? u).toList := by
  rw [List.filterMap_append]
  cases hu : unit? u with
  | none => rw [List.filterMap_cons_none hu, List.filterMap_nil, Option.toList_none]
  | some x => rw [List.filterMap_cons_some hu, List.filterMap_nil, Option.toList_some]

/-- The names of the units of one kind, where `unit?` picks these. -/
theorem mem_names_iff (h : ∀ v, (unit? v).map nameOf = if v.kind = k then some v.name else none)
    {us : List Insertion} {n : String} :
    n ∈ (us.filterMap unit?).map nameOf ↔ ∃ v ∈ us, v.kind = k ∧ v.name = n := by
  simp only [List.map_filterMap, h, List.mem_filterMap, Option.ite_none_right_eq_some,
    Option.some.injEq]

theorem map_header? (v : Insertion) :
    v.header?.map PackageHeader.name = if v.kind = .header then some v.name else none := by
  cases v <;> rfl

theorem map_entity? (v : Insertion) :
    v.entity?.map Entity.name = if v.kind = .entity then some v.name else none := by
  cases v <;> rfl

theorem map_body? (v : Insertion) :
    v.body?.map PackageBody.name = if v.kind = .body then some v.name else none := by
  cases v <;> rfl

end Kinds

end Insertion

namespace Design

/-! ### One insertion -/

section Step

variable {α : Type} {name : α → String} {put : List α → Design} {done : List α} {x : α}
  {d : Design} {c : Change}

theorem after_of_addNamed (h : d.attempt c = (addNamed name done x).map put)
    (hd : put done = d) : d.after c = put (done ++ untaken name done (some x)) := by
  rw [after, h, addNamed, untaken]
  by_cases hx : name x ∈ done.map name
  · rw [if_pos hx, if_pos hx, List.append_nil]
    exact hd.symm
  · rw [if_neg hx, if_neg hx]
    rfl

theorem attempt_eq_error_iff_of_addNamed (h : d.attempt c = (addNamed name done x).map put)
    {e : DocumentError} :
    d.attempt c = .error e ↔ e = .redefinition (name x) ∧ name x ∈ done.map name := by
  rw [h, addNamed]
  split_ifs with hx <;> simp [hx, Except.map, eq_comm]

theorem attempt_insertHeader (d : Design) (h : PackageHeader) : d.attempt (.insertHeader h) =
    (addNamed PackageHeader.name d.headers h).map fun headers => { d with headers } :=
  d.insertHeader_eq d.headers h

theorem attempt_insertEntity (d : Design) (e : Entity) : d.attempt (.insertEntity e) =
    (addNamed Entity.name d.entities e).map fun entities => { d with entities } :=
  d.insertEntity_eq d.entities e

theorem attempt_insertBody (d : Design) (b : PackageBody) : d.attempt (.insertBody b) =
    (addNamed PackageBody.name d.bodies b).map fun bodies => { d with bodies } :=
  d.insertBody_eq d.bodies b

/-- An insertion adds to the units of its kind alone, and at most the unit that is inserted. -/
theorem after_change (d : Design) (u : Insertion) : d.after u.change =
    { d with
      headers := d.headers ++ untaken PackageHeader.name d.headers u.header?
      entities := d.entities ++ untaken Entity.name d.entities u.entity?
      bodies := d.bodies ++ untaken PackageBody.name d.bodies u.body? } := by
  cases u with
  | header h =>
      rw [Insertion.change, after_of_addNamed (d.attempt_insertHeader h) rfl]
      simp only [Insertion.header?, Insertion.entity?, Insertion.body?, untaken, List.append_nil]
  | entity e =>
      rw [Insertion.change, after_of_addNamed (d.attempt_insertEntity e) rfl]
      simp only [Insertion.header?, Insertion.entity?, Insertion.body?, untaken, List.append_nil]
  | body b =>
      rw [Insertion.change, after_of_addNamed (d.attempt_insertBody b) rfl]
      simp only [Insertion.header?, Insertion.entity?, Insertion.body?, untaken, List.append_nil]

end Step

/-! ### Runs of insertions -/

/-- The design after a run of insertions. -/
def ofInsertions (us : List Insertion) : Design := run (us.map Insertion.change)

theorem ofInsertions_append_singleton (us : List Insertion) (u : Insertion) :
    ofInsertions (us ++ [u]) = (ofInsertions us).after u.change := by
  rw [ofInsertions, List.map_append, List.map_singleton, run_append_singleton]
  rfl

theorem ofInsertions_eq (us : List Insertion) : ofInsertions us =
    { empty with
      headers := firstOfEachName PackageHeader.name (us.filterMap Insertion.header?)
      entities := firstOfEachName Entity.name (us.filterMap Insertion.entity?)
      bodies := firstOfEachName PackageBody.name (us.filterMap Insertion.body?) } := by
  induction us using List.reverseRecOn with
  | nil => rfl
  | append_singleton us u ih =>
      rw [ofInsertions_append_singleton, ih, after_change]
      simp only [Insertion.filterMap_append_singleton, firstOfEachName_append_toList]

theorem attempt_eq_error_iff {us : List Insertion} {u : Insertion} {e : DocumentError} :
    (ofInsertions us).attempt u.change = .error e ↔
      e = .redefinition u.name ∧ ∃ v ∈ us, v.kind = u.kind ∧ v.name = u.name := by
  rw [ofInsertions_eq]
  cases u with
  | header h =>
      rw [Insertion.change, attempt_eq_error_iff_of_addNamed (attempt_insertHeader _ h),
        mem_names_firstOfEachName, Insertion.mem_names_iff Insertion.map_header?]
      rfl
  | entity e =>
      rw [Insertion.change, attempt_eq_error_iff_of_addNamed (attempt_insertEntity _ e),
        mem_names_firstOfEachName, Insertion.mem_names_iff Insertion.map_entity?]
      rfl
  | body b =>
      rw [Insertion.change, attempt_eq_error_iff_of_addNamed (attempt_insertBody _ b),
        mem_names_firstOfEachName, Insertion.mem_names_iff Insertion.map_body?]
      rfl

/-- Without an insertion that is refused, the same design comes out. -/
theorem ofInsertions_drop {us : List Insertion} {u : Insertion} {e : DocumentError}
    (h : (ofInsertions us).attempt u.change = .error e) (vs : List Insertion) :
    ofInsertions (us ++ u :: vs) = ofInsertions (us ++ vs) := by
  have hafter : (ofInsertions us).after u.change = ofInsertions us := by rw [after, h]
  rw [ofInsertions, List.map_append, List.map_cons, run, List.foldl_append, List.foldl_cons]
  rw [ofInsertions, List.map_append, run, List.foldl_append]
  exact congrArg (List.foldl after · _) hafter

/-- A run of insertions keeps the first unit of each kind and name. An insertion is refused exactly
if an earlier one was of the same kind and name, and might as well not have been; a name finds the
first unit that was inserted under it. So the order matters only among the units of one kind. -/
theorem insertions_keep_first (us : List Insertion) :
    ofInsertions us =
        { empty with
          headers := firstOfEachName PackageHeader.name (us.filterMap Insertion.header?)
          entities := firstOfEachName Entity.name (us.filterMap Insertion.entity?)
          bodies := firstOfEachName PackageBody.name (us.filterMap Insertion.body?) } ∧
      (∀ (u : Insertion) e, (ofInsertions us).attempt u.change = .error e ↔
        e = .redefinition u.name ∧ ∃ v ∈ us, v.kind = u.kind ∧ v.name = u.name) ∧
      (∀ (u : Insertion) e, (ofInsertions us).attempt u.change = .error e →
        ∀ vs, ofInsertions (us ++ u :: vs) = ofInsertions (us ++ vs)) ∧
      (∀ n, (ofInsertions us).header? n =
          (us.filterMap Insertion.header?).find? (fun h => h.name == n) ∧
        (ofInsertions us).entity? n =
          (us.filterMap Insertion.entity?).find? (fun e => e.name == n) ∧
        (ofInsertions us).body? n = (us.filterMap Insertion.body?).find? fun b => b.name == n) ∧
      ∀ vs, us.filterMap Insertion.header? = vs.filterMap Insertion.header? →
        us.filterMap Insertion.entity? = vs.filterMap Insertion.entity? →
        us.filterMap Insertion.body? = vs.filterMap Insertion.body? →
        ofInsertions us = ofInsertions vs := by
  refine ⟨ofInsertions_eq us, fun u e => attempt_eq_error_iff, fun u e => ofInsertions_drop,
    fun n => ?_, fun vs hheaders hentities hbodies => ?_⟩
  · -- the later units of a name are never found
    rw [ofInsertions_eq]
    exact ⟨find?_firstOfEachName _ n, find?_firstOfEachName _ n, find?_firstOfEachName _ n⟩
  · rw [ofInsertions_eq, ofInsertions_eq, hheaders, hentities, hbodies]

/-- An entity and a body of one name. -/
def counterUnits : List Insertion := [.entity ⟨"counter", [], []⟩, .body ⟨"counter", [], []⟩]

/-- Another entity of that name, with a generic. -/
def secondCounter : Insertion := .entity ⟨"counter", [⟨"width", .id "integer", none⟩], []⟩

def counterHeader : Insertion := .header ⟨"counter", [], [], []⟩

/-- Only the second entity is refused, and units of different kinds may come in any order. -/
theorem counterUnits_keep_first :
    (ofInsertions counterUnits).attempt secondCounter.change =
        .error (.redefinition "counter") ∧
      ofInsertions (counterUnits ++ [secondCounter, counterHeader]) =
        ofInsertions (counterUnits ++ [counterHeader]) ∧
      ofInsertions (counterUnits ++ [counterHeader]) =
        ofInsertions (counterHeader :: counterUnits) := by
  obtain ⟨-, hrefused, hdropped, -, -⟩ := insertions_keep_first counterUnits
  obtain ⟨-, -, -, -, hequal⟩ := insertions_keep_first (counterUnits ++ [counterHeader])
  have herror := (hrefused secondCounter _).2 ⟨rfl, _, List.mem_cons_self, rfl, rfl⟩
  exact ⟨herror, hdropped _ _ herror _, hequal _ rfl rfl rfl⟩

end Design

end HdlInterface
