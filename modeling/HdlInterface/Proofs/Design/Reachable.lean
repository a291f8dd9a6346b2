import Mathlib.Data.List.Induction
import HdlInterface.Proofs.Design.Arrange
import HdlInterface.Proofs.Design.Collision
import HdlInterface.Proofs.Design.Lookup

/-!
# Changes to a design

A design is built step by step from the empty one. A change that fails leaves it as it was. However
it is built, no two units of one kind have the same name (`Design.uniqueNames_run`), so all units
are found by their names and all are written (`Design.run_keeps_units`).
-/

namespace HdlInterface

/-! ## Changes -/

/-- A step in the making of a design. -/
inductive Change
  /-- the design is replaced by one that is read from a text -/
  | read (text : String)
  | insertHeader (h : PackageHeader)
  | insertEntity (e : Entity)
  | insertBody (b : PackageBody)
  | canonical (l : Language)
  | arrange
  | imports (imports : List Json)
  | architectures (architectures : List Architecture)
  | extra (extra : Fields)

namespace Design

/-- The changed design, if the change succeeds. -/
def attempt (d : Design) : Change → Except DocumentError Design
  | .read text => ofText text
  | .insertHeader h => d.insertHeader h
  | .insertEntity e => d.insertEntity e
  | .insertBody b => d.insertBody b
  | .canonical l => d.canonical l
  | .arrange => .ok d.arrange
  | .imports imports => .ok { d with imports }
  | .architectures architectures => .ok { d with architectures }
  | .extra extra => .ok { d with extra }

/-- The design after a change, which has no effect if it fails. -/
def after (d : Design) (c : Change) : Design :=
  match d.attempt c with
  | .ok e => e
  | .error _ => d

/-- The design after a run of changes. -/
def run (changes : List Change) : Design := changes.foldl after empty

/-- The header is inserted in the run, and not refused. -/
def Inserts (changes : List Change) (h : PackageHeader) : Prop :=
  ∃ before rest e, changes = before ++ .insertHeader h :: rest ∧ (run before).insertHeader h = .ok e

end Design

/-- The renaming that comes with a change. -/
def Change.rename : Change → String → String
  | .canonical l => l.canonical
  | _ => id

namespace Design

/-- Units that were there before, perhaps renamed, keep their order and stand before new ones. -/
structure Precedes (f : String → String) (d e : Design) : Prop where
  headers : (d.headers.map fun h => f h.name) <+: e.headers.map PackageHeader.name
  entities : (d.entities.map fun u => f u.name) <+: e.entities.map Entity.name
  bodies : (d.bodies.map fun b => f b.name) <+: e.bodies.map PackageBody.name

/-- No two components of one header have the same name. -/
def DistinctComponents (d : Design) : Prop :=
  ∀ h ∈ d.headers, (h.components.map Entity.name).Nodup

/-! ## Insertion -/

section Insertion

variable {d e : Design}

theorem map_addNamed_eq_ok_iff {α : Type} {name : α → String} {put : List α → Design}
    {done : List α} {x : α} : (addNamed name done x).map put = .ok e ↔
      name x ∉ done.map name ∧ put (done ++ [x]) = e := by
  rw [addNamed]
  split_ifs with hname <;> simp [hname, Except.map]

theorem insertHeader_eq_ok_iff {h : PackageHeader} : d.insertHeader h = .ok e ↔
    h.name ∉ d.headers.map PackageHeader.name ∧ { d with headers := d.headers ++ [h] } = e := by
  rw [show d.insertHeader h = _ from d.insertHeader_eq d.headers h, map_addNamed_eq_ok_iff]

theorem insertEntity_eq_ok_iff {u : Entity} : d.insertEntity u = .ok e ↔
    u.name ∉ d.entities.map Entity.name ∧ { d with entities := d.entities ++ [u] } = e := by
  rw [show d.insertEntity u = _ from d.insertEntity_eq d.entities u, map_addNamed_eq_ok_iff]

theorem insertBody_eq_ok_iff {b : PackageBody} : d.insertBody b = .ok e ↔
    b.name ∉ d.bodies.map PackageBody.name ∧ { d with bodies := d.bodies ++ [b] } = e := by
  rw [show d.insertBody b = _ from d.insertBody_eq d.bodies b, map_addNamed_eq_ok_iff]

theorem nodup_map_append_singleton {α : Type} {name : α → String} {xs : List α} {x : α}
    (hxs : (xs.map name).Nodup) (hx : name x ∉ xs.map name) : ((xs ++ [x]).map name).Nodup := by
  rw [List.map_append, List.map_singleton]
  exact hxs.append (List.nodup_singleton _) (List.disjoint_singleton.2 hx)

end Insertion

/-! ## One change -/

section Step

variable {d e : Design} {c : Change}

theorem exists_ofFields_of_ofText {text : String} (h : ofText text = .ok d) :
    ∃ m, (Json.object m).WellFormed ∧ ofFields m = .ok d := by
  obtain ⟨m, hm, hread⟩ := exists_object_of_ofText h
  exact ⟨m, Json.wellFormed_of_ofText? hm, hread⟩

theorem uniqueNames_of_attempt (hd : d.UniqueNames) (h : d.attempt c = .ok e) :
    e.UniqueNames := by
  cases c with
  | read text =>
      obtain ⟨m, hm, hread⟩ := exists_ofFields_of_ofText h
      exact uniqueNames_of_ofFields hm hread
  | insertHeader u =>
      obtain ⟨hname, rfl⟩ := insertHeader_eq_ok_iff.1 h
      exact { hd with headers := nodup_map_append_singleton hd.headers hname }
  | insertEntity u =>
      obtain ⟨hname, rfl⟩ := insertEntity_eq_ok_iff.1 h
      exact { hd with entities := nodup_map_append_singleton hd.entities hname }
  | insertBody u =>
      obtain ⟨hname, rfl⟩ := insertBody_eq_ok_iff.1 h
      exact { hd with bodies := nodup_map_append_singleton hd.bodies hname }
  | canonical l =>
      obtain ⟨hrepeat, rfl⟩ := canonical_eq_ok_iff.1 h
      exact (firstRepeat_eq_none_iff.1 hrepeat).2.2
  | arrange => exact Except.ok.inj h ▸ uniqueNames_arrange hd
  | imports => exact Except.ok.inj h ▸ ⟨hd.headers, hd.entities, hd.bodies⟩
  | architectures => exact Except.ok.inj h ▸ ⟨hd.headers, hd.entities, hd.bodies⟩
  | extra => exact Except.ok.inj h ▸ ⟨hd.headers, hd.entities, hd.bodies⟩

theorem distinctComponents_of_attempt (hd : d.DistinctComponents) (h : d.attempt c = .ok e)
    (hinsert : ∀ u, c = .insertHeader u → (u.components.map Entity.name).Nodup) :
    e.DistinctComponents := by
  cases c with
  | read text =>
      obtain ⟨m, hm, hread⟩ := exists_ofFields_of_ofText h
      exact fun u hu => ((lossless_of_ofFields hm hread).headers u hu).names
  | insertHeader u =>
      obtain ⟨-, rfl⟩ := insertHeader_eq_ok_iff.1 h
      refine List.forall_mem_append.2 ⟨hd, ?_⟩
      rw [List.forall_mem_singleton]
      exact hinsert u rfl
  | insertEntity u =>
      obtain ⟨-, rfl⟩ := insertEntity_eq_ok_iff.1 h
      exact hd
  | insertBody u =>
      obtain ⟨-, rfl⟩ := insertBody_eq_ok_iff.1 h
      exact hd
  | canonical l =>
      obtain ⟨hrepeat, rfl⟩ := canonical_eq_ok_iff.1 h
      have hheaders := (firstRepeat_eq_none_iff.1 hrepeat).1
      exact fun u hu => (PackageHeader.firstRepeat_eq_none_iff.1 (hheaders u hu)).2
  | arrange =>
      obtain rfl := Except.ok.inj h
      rw [DistinctComponents, arrange_eq, List.forall_mem_map]
      exact fun u hu => u.map_name_arrange ▸ hd u hu
  | imports => exact Except.ok.inj h ▸ hd
  | architectures => exact Except.ok.inj h ▸ hd
  | extra => exact Except.ok.inj h ▸ hd

/-- Only reading another design replaces the units. -/
theorem precedes_of_attempt (h : d.attempt c = .ok e) (hread : ∀ text, c ≠ .read text) :
    d.Precedes c.rename e := by
  have hsame : d.Precedes id d := ⟨List.prefix_rfl, List.prefix_rfl, List.prefix_rfl⟩
  cases c with
  | read text => exact absurd rfl (hread text)
  | insertHeader u =>
      obtain ⟨-, rfl⟩ := insertHeader_eq_ok_iff.1 h
      exact { hsame with headers := (List.prefix_append d.headers [u]).map PackageHeader.name }
  | insertEntity u =>
      obtain ⟨-, rfl⟩ := insertEntity_eq_ok_iff.1 h
      exact { hsame with entities := (List.prefix_append d.entities [u]).map Entity.name }
  | insertBody u =>
      obtain ⟨-, rfl⟩ := insertBody_eq_ok_iff.1 h
      exact { hsame with bodies := (List.prefix_append d.bodies [u]).map PackageBody.name }
  | canonical l =>
      obtain ⟨-, rfl⟩ := canonical_eq_ok_iff.1 h
      constructor <;> rw [mapNames, List.map_map] <;> exact List.prefix_rfl
  | arrange =>
      obtain rfl := Except.ok.inj h
      refine ⟨?_, ?_, hsame.bodies⟩ <;> rw [arrange_eq, List.map_map] <;> exact List.prefix_rfl
  | imports => exact Except.ok.inj h ▸ ⟨hsame.headers, hsame.entities, hsame.bodies⟩
  | architectures => exact Except.ok.inj h ▸ ⟨hsame.headers, hsame.entities, hsame.bodies⟩
  | extra => exact Except.ok.inj h ▸ ⟨hsame.headers, hsame.entities, hsame.bodies⟩

end Step

/-! ## Runs -/

theorem run_append_singleton (changes : List Change) (c : Change) :
    run (changes ++ [c]) = (run changes).after c := by
  rw [run, run, List.foldl_append, List.foldl_cons, List.foldl_nil]

theorem after_of_attempt {P : Design → Prop} {d : Design} {c : Change} (hd : P d)
    (h : ∀ e, d.attempt c = .ok e → P e) : P (d.after c) := by
  unfold after
  split
  · next e he => exact h e he
  · exact hd

theorem uniqueNames_run (changes : List Change) : (run changes).UniqueNames := by
  -- the induction takes off the last change, which finds the design as the others left it
  induction changes using List.reverseRecOn with
  | nil => exact ⟨.nil, .nil, .nil⟩
  | append_singleton changes c ih =>
      rw [run_append_singleton]
      exact after_of_attempt ih fun e he => uniqueNames_of_attempt ih he

theorem Inserts.append {changes : List Change} {u : PackageHeader} (h : Inserts changes u)
    (changes' : List Change) : Inserts (changes ++ changes') u := by
  obtain ⟨before, rest, e, rfl, he⟩ := h
  exact ⟨before, rest ++ changes', e, by simp, he⟩

theorem Inserts.mem {changes : List Change} {u : PackageHeader} (h : Inserts changes u) :
    .insertHeader u ∈ changes := by
  obtain ⟨before, rest, -, rfl, -⟩ := h
  simp

theorem distinctComponents_run {changes : List Change}
    (h : ∀ u, Inserts changes u → (u.components.map Entity.name).Nodup) :
    (run changes).DistinctComponents := by
  induction changes using List.reverseRecOn with
  | nil => exact nofun
  | append_singleton changes c ih =>
      have hrun := ih fun u hu => h u (hu.append [c])
      rw [run_append_singleton]
      refine after_of_attempt hrun fun e he => distinctComponents_of_attempt hrun he ?_
      rintro u rfl
      exact h u ⟨changes, [], e, rfl, he⟩

end Design

/-! ## Written units -/

/-- The section has an entry for each thing, under its name and in its place, and no other entry. -/
def Fields.HasSection {α : Type} (m : Fields) (key : String)
    (write : α → Except DocumentError Fields) (name : α → String) (xs : List α) : Prop :=
  ∃ entries, m.value? key = some (.object entries) ∧
    List.Forall₂ (fun x f => ∃ n, f = (name x, .object n) ∧ write x = .ok n) xs entries

theorem Fields.hasSection_assignAll {α : Type} {m extra : Fields} {key : String} {v : Json}
    {write : α → Except DocumentError Fields} {name : α → String} {xs : List α}
    (hxs : (xs.map name).Nodup) (h : Json.ofKeyed write name xs = .ok v)
    (hv : m.value? key = some v) (hextra : key ∉ extra.keys) :
    (assignAll m extra).HasSection key write name xs := by
  obtain ⟨entries, rfl, hentries⟩ := (ofKeyed_eq_ok_iff_of_nodup hxs).1 h
  exact ⟨entries, (value?_assignAll_of_notMem hextra).trans hv, hentries⟩

theorem PackageHeader.hasSection_of_toFields {h : PackageHeader} {w : Fields}
    (hnames : (h.components.map Entity.name).Nodup) (hw : h.toFields = .ok w)
    (hextra : "components" ∉ h.extra.keys) :
    w.HasSection "components" Entity.toFields Entity.name h.components := by
  obtain ⟨components, hcomponents, rfl⟩ := toFields_eq_ok_iff.1 hw
  exact Fields.hasSection_assignAll hnames hcomponents rfl hextra

namespace Design

/-- The document has a section for each kind of units, with all of them. -/
structure WrittenIn (d : Design) (w : Fields) : Prop where
  headers : w.HasSection "packageHeaders" PackageHeader.toFields PackageHeader.name d.headers
  entities : w.HasSection "entities" Entity.toFields Entity.name d.entities
  bodies : w.HasSection "packages" (fun b => .ok b.toFields) PackageBody.name d.bodies

theorem writtenIn_of_toFields {d : Design} {w : Fields} (hd : d.UniqueNames)
    (hw : d.toFields = .ok w) (hextra : d.extra.Avoids sections) : d.WrittenIn w := by
  obtain ⟨headers, entities, bodies, hheaders, hentities, hbodies, rfl⟩ := toFields_eq_ok_iff.1 hw
  exact ⟨Fields.hasSection_assignAll hd.headers hheaders rfl (hextra _ (by decide)),
    Fields.hasSection_assignAll hd.entities hentities rfl (hextra _ (by decide)),
    Fields.hasSection_assignAll hd.bodies hbodies rfl (hextra _ (by decide))⟩

/-- After any run of changes, some of which may have failed, names differ among the units of each
kind. So a unit is found by its name, and all units are written in their order. All components are
written as well, if those of each inserted header have different names, unless a header keeps a
field `components` besides them. -/
theorem run_keeps_units (changes : List Change) :
    (run changes).UniqueNames ∧
      (∀ n u, (run changes).header? n = some u ↔ u ∈ (run changes).headers ∧ u.name = n) ∧
      (∀ n u, (run changes).entity? n = some u ↔ u ∈ (run changes).entities ∧ u.name = n) ∧
      (∀ n u, (run changes).body? n = some u ↔ u ∈ (run changes).bodies ∧ u.name = n) ∧
      (∀ c e, (run changes).attempt c = .ok e → (∀ text, c ≠ .read text) →
        (run changes).Precedes c.rename e) ∧
      (∀ w, (run changes).toFields = .ok w → (run changes).extra.Avoids sections →
        (run changes).WrittenIn w) ∧
      ((∀ u, Inserts changes u → (u.components.map Entity.name).Nodup) →
        ∀ u ∈ (run changes).headers, (u.components.map Entity.name).Nodup ∧
          ∀ w, u.toFields = .ok w → "components" ∉ u.extra.keys →
            w.HasSection "components" Entity.toFields Entity.name u.components) := by
  have hunique := uniqueNames_run changes
  refine ⟨hunique, fun _ _ => header?_eq_some_iff hunique, fun _ _ => entity?_eq_some_iff hunique,
    fun _ _ => body?_eq_some_iff hunique, fun _ _ => precedes_of_attempt,
    fun _ => writtenIn_of_toFields hunique, fun hinserted u hu => ?_⟩
  have hnames := distinctComponents_run hinserted u hu
  exact ⟨hnames, fun _ => PackageHeader.hasSection_of_toFields hnames⟩

/-- A package with two components, an entity that is inserted twice, and canonical names. -/
def utilities : List Change :=
  [.insertHeader ⟨"Util", [⟨"Reg", [], []⟩, ⟨"Adder", [], []⟩], [], []⟩,
    .insertEntity ⟨"Top", [], []⟩, .insertEntity ⟨"Top", [], []⟩, .canonical .vhdl]

theorem utilities_keeps_units : ∃ u w, (run utilities).header? "util" = some u ∧
    u.toFields = .ok w ∧
    w.HasSection "components" Entity.toFields Entity.name u.components ∧
    u.components.map Entity.name = ["reg", "adder"] ∧
    (run utilities).entities.map Entity.name = ["top"] := by
  have hinserted : ∀ u, Inserts utilities u → (u.components.map Entity.name).Nodup := by
    intro u hu
    have hmem := hu.mem
    simp only [utilities, List.mem_cons, Change.insertHeader.injEq, reduceCtorEq, or_false,
      List.not_mem_nil] at hmem
    subst hmem
    decide
  have hutil : ∃ u ∈ (run utilities).headers, u.name = "util" ∧
      u.components.map Entity.name = ["reg", "adder"] ∧ (∀ c ∈ u.components, c.Complete) ∧
      "components" ∉ u.extra.keys := by
    decide +kernel
  obtain ⟨u, hu, hname, hcomponents, hcomplete, hextra⟩ := hutil
  obtain ⟨w, hw⟩ := PackageHeader.exists_toFields_iff.2 hcomplete
  obtain ⟨-, hheader, -, -, -, -, hwritten⟩ := run_keeps_units utilities
  exact ⟨u, w, (hheader "util" u).2 ⟨hu, hname⟩, hw, (hwritten hinserted u hu).2 w hw hextra,
    hcomponents, by decide +kernel⟩

/-- A package with a component, and with a field of its own in place of the components. -/
def shadowed : PackageHeader := ⟨"p", [⟨"A", [], []⟩], [], [("components", .object [])]⟩

theorem shadowed_components_lost : ¬∀ changes : List Change,
    (∀ u, Inserts changes u → (u.components.map Entity.name).Nodup) →
      ∀ w, (run changes).toFields = .ok w → (run changes).extra.Avoids sections →
        ∀ u ∈ (run changes).headers, ∀ n, u.toFields = .ok n →
          n.HasSection "components" Entity.toFields Entity.name u.components := by
  intro h
  have hrun : run [.insertHeader shadowed] = { empty with headers := [shadowed] } := rfl
  have hinserted : ∀ u, Inserts [.insertHeader shadowed] u →
      (u.components.map Entity.name).Nodup := by
    intro u hu
    obtain rfl := Change.insertHeader.inj (List.mem_singleton.1 hu.mem)
    decide
  have hcomplete : (∃ w, (run [.insertHeader shadowed]).toFields = .ok w) := by
    rw [hrun, exists_toFields_iff]
    decide
  obtain ⟨w, hw⟩ := hcomplete
  have hwritten : shadowed.toFields = .ok [("name", .string "p"), ("components", .object []),
    ("functions", .array [])] := rfl
  obtain ⟨entries, hvalue, hentries⟩ :=
    h _ hinserted w hw (by decide) shadowed List.mem_cons_self _ hwritten
  obtain rfl : [] = entries := by simpa [Fields.value?] using hvalue
  cases hentries

end Design

end HdlInterface
