import HdlInterface.Proofs.Design.Declarations
import HdlInterface.Proofs.Design.Lookup
import HdlInterface.Proofs.Design.ReadBack

/-!
# What renaming does

A thing and the same thing renamed, position by position: identifiers are rewritten, and nothing
else is. Making names canonical renames a design in this sense and in no other
(`Design.canonical_renames`). Since no names collide, all that was found by its name is found by its
new name.
-/

namespace HdlInterface

section Lists

variable {α β : Type} {R : α → β → Prop} {g : α → β} {xs : List α} {ys : List β} {a : Option α}
  {b : Option β} (h : ∀ x y, R x y ↔ y = g x)

include h

theorem forall₂_iff_eq_map : List.Forall₂ R xs ys ↔ ys = xs.map g := by
  induction xs generalizing ys with
  | nil => simp
  | cons x xs ih =>
      rw [List.forall₂_cons_left_iff, List.map_cons]
      constructor
      · rintro ⟨y, zs, hy, hzs, rfl⟩
        rw [(h x y).1 hy, ih.1 hzs]
      · rintro rfl
        exact ⟨g x, xs.map g, (h x _).2 rfl, ih.2 rfl, rfl⟩

theorem optionRel_iff_eq_map : Option.Rel R a b ↔ b = a.map g := by
  cases a <;> cases b <;> simp [h]

end Lists

variable (f : String → String)

/-! ## References -/

namespace Json

/-- A name in a list is rewritten; anything else stays. -/
inductive PartRenamed : Json → Json → Prop
  | name (s : String) : PartRenamed (.string s) (.string (f s))
  | other {v : Json} (hv : ∀ s, v ≠ .string s) : PartRenamed v v

/-- A name, or a list of which the names are rewritten; anything else stays. -/
inductive ReferenceRenamed : Json → Json → Prop
  | name (s : String) : ReferenceRenamed (.string s) (.string (f s))
  | list {parts parts' : List Json} (hparts : List.Forall₂ (PartRenamed f) parts parts') :
      ReferenceRenamed (.array parts) (.array parts')
  | other {v : Json} (hname : ∀ s, v ≠ .string s) (hlist : ∀ xs, v ≠ .array xs) :
      ReferenceRenamed v v

end Json

/-! ## Expressions -/

/-- Every part of every name is rewritten. Operators, integers, strings and the shape of the tree
stay. -/
inductive Expr.Renamed : Expr → Expr → Prop
  | name {parts parts' : List String} (hparts : List.Forall₂ (fun s t => t = f s) parts parts') :
      Renamed (.literal (.name parts)) (.literal (.name parts'))
  | integer (value : Int64) (bits : Option UInt32) :
      Renamed (.literal (.integer value bits)) (.literal (.integer value bits))
  | string (text : String) : Renamed (.literal (.string text)) (.literal (.string text))
  | binary (operator : String) {x x' y y' : Expr} (hx : Renamed x x') (hy : Renamed y y') :
      Renamed (.binary operator x y) (.binary operator x' y')
  | nary (operator : String) {x x' : Expr} {xs xs' : List Expr} (hx : Renamed x x')
      (hxs : List.Forall₂ Renamed xs xs') : Renamed (.nary operator x xs) (.nary operator x' xs')

/-! ## Interfaces and units -/

structure Variable.Renamed (v w : Variable) : Prop where
  name : w.name = f v.name
  type : v.type.Renamed f w.type
  value : Option.Rel (Expr.Renamed f) v.value w.value

structure Port.Renamed (p q : Port Variable) : Prop where
  direction : q.direction = p.direction
  signal : Option.Rel (Variable.Renamed f) p.signal q.signal

structure Entity.Renamed (d e : Entity) : Prop where
  name : e.name = f d.name
  generics : List.Forall₂ (Variable.Renamed f) d.generics e.generics
  ports : List.Forall₂ (Port.Renamed f) d.ports e.ports

structure PackageHeader.Renamed (h k : PackageHeader) : Prop where
  name : k.name = f h.name
  components : List.Forall₂ (Entity.Renamed f) h.components k.components
  functions : k.functions = h.functions
  extra : k.extra = h.extra

structure PackageBody.Renamed (b c : PackageBody) : Prop where
  name : c.name = f b.name
  functions : c.functions = b.functions
  extra : c.extra = b.extra

structure Instance.Renamed (i j : Instance) : Prop where
  name : j.name = f i.name
  reference : i.reference.ReferenceRenamed f j.reference
  extra : j.extra = i.extra

structure Architecture.Renamed (a b : Architecture) : Prop where
  name : b.name = f a.name
  entity : b.entity = f a.entity
  instances : List.Forall₂ (Instance.Renamed f) a.instances b.instances
  extra : b.extra = a.extra

structure Design.Renamed (d e : Design) : Prop where
  imports : List.Forall₂ (Json.ReferenceRenamed f) d.imports e.imports
  headers : List.Forall₂ (PackageHeader.Renamed f) d.headers e.headers
  entities : List.Forall₂ (Entity.Renamed f) d.entities e.entities
  bodies : List.Forall₂ (PackageBody.Renamed f) d.bodies e.bodies
  architectures : List.Forall₂ (Architecture.Renamed f) d.architectures e.architectures
  extra : e.extra = d.extra

/-! ## Renaming is a function -/

variable {f}

namespace Json

theorem partRenamed_iff {v w : Json} : PartRenamed f v w ↔ w = match v with
    | .string s => .string (f s)
    | v => v := by
  constructor
  · rintro (s | hv)
    · rfl
    · cases v <;> first | rfl | exact absurd rfl (hv _)
  · rintro rfl
    cases v with
    | string s => exact .name s
    | _ => exact .other nofun

theorem referenceRenamed_iff {v w : Json} : ReferenceRenamed f v w ↔ w = v.mapReference f := by
  constructor
  · intro h
    cases h with
    | name s => rfl
    | list hparts =>
        exact congrArg array ((forall₂_iff_eq_map fun _ _ => partRenamed_iff).1 hparts)
    | other hname hlist =>
        cases v <;> first | rfl | exact absurd rfl (hname _) | exact absurd rfl (hlist _)
  · rintro rfl
    cases v with
    | string s => exact .name s
    | array _ => exact .list ((forall₂_iff_eq_map fun _ _ => partRenamed_iff).2 rfl)
    | _ => exact .other nofun nofun

end Json

namespace Expr

mutual

theorem renamed_mapNames : (e : Expr) → e.Renamed f (e.mapNames f)
  | literal (.name _) => .name ((forall₂_iff_eq_map fun _ _ => Iff.rfl).2 rfl)
  | literal (.integer value bits) => .integer value bits
  | literal (.string text) => .string text
  | binary o x y => .binary o (renamed_mapNames x) (renamed_mapNames y)
  | nary o x xs => .nary o (renamed_mapNames x) (renamed_mapNamesList xs)

theorem renamed_mapNamesList : (xs : List Expr) → List.Forall₂ (Renamed f) xs (mapNamesList f xs)
  | [] => .nil
  | x :: xs => .cons (renamed_mapNames x) (renamed_mapNamesList xs)

end

mutual

theorem eq_mapNames_of_renamed : (e : Expr) → {e' : Expr} → e.Renamed f e' → e' = e.mapNames f
  | literal (.name _), _, .name hparts => by
      rw [mapNames, (forall₂_iff_eq_map fun _ _ => Iff.rfl).1 hparts]
  | literal (.integer ..), _, .integer .. => rfl
  | literal (.string _), _, .string _ => rfl
  | binary o x y, _, .binary _ hx hy => by
      rw [mapNames, eq_mapNames_of_renamed x hx, eq_mapNames_of_renamed y hy]
  | nary o x xs, _, .nary _ hx hxs => by
      rw [mapNames, eq_mapNames_of_renamed x hx, eq_mapNamesList_of_renamed xs hxs]

theorem eq_mapNamesList_of_renamed : (xs : List Expr) → {xs' : List Expr} →
    List.Forall₂ (Renamed f) xs xs' → xs' = mapNamesList f xs
  | [], _, .nil => rfl
  | x :: xs, _, .cons hx hxs => by
      rw [mapNamesList, eq_mapNames_of_renamed x hx, eq_mapNamesList_of_renamed xs hxs]

end

theorem renamed_iff {e e' : Expr} : e.Renamed f e' ↔ e' = e.mapNames f :=
  ⟨eq_mapNames_of_renamed e, fun h => h ▸ e.renamed_mapNames⟩

end Expr

namespace Variable

theorem renamed_iff {v w : Variable} : v.Renamed f w ↔ w = v.mapNames f := by
  have hvalue : Option.Rel (Expr.Renamed f) v.value w.value ↔
      w.value = v.value.map (Expr.mapNames f) :=
    optionRel_iff_eq_map fun _ _ => Expr.renamed_iff
  constructor
  · rintro ⟨hname, htype, hrel⟩
    rw [mapNames, ← hname, ← Expr.renamed_iff.1 htype, ← hvalue.1 hrel]
  · rintro rfl
    exact ⟨rfl, Expr.renamed_iff.2 rfl, hvalue.2 rfl⟩

end Variable

namespace Port

theorem renamed_iff {p q : Port Variable} : p.Renamed f q ↔ q = p.mapNames f := by
  have hsignal : Option.Rel (Variable.Renamed f) p.signal q.signal ↔
      q.signal = p.signal.map (Variable.mapNames f) :=
    optionRel_iff_eq_map fun _ _ => Variable.renamed_iff
  constructor
  · rintro ⟨hdirection, hrel⟩
    rw [mapNames, ← hdirection, ← hsignal.1 hrel]
  · rintro rfl
    exact ⟨rfl, hsignal.2 rfl⟩

end Port

namespace Entity

theorem renamed_iff {d e : Entity} : d.Renamed f e ↔ e = d.mapNames f := by
  have hgenerics : List.Forall₂ (Variable.Renamed f) d.generics e.generics ↔
      e.generics = d.generics.map (Variable.mapNames f) :=
    forall₂_iff_eq_map fun _ _ => Variable.renamed_iff
  have hports : List.Forall₂ (Port.Renamed f) d.ports e.ports ↔
      e.ports = d.ports.map (Port.mapNames f) :=
    forall₂_iff_eq_map fun _ _ => Port.renamed_iff
  constructor
  · rintro ⟨hname, hg, hp⟩
    rw [mapNames, ← hname, ← hgenerics.1 hg, ← hports.1 hp]
  · rintro rfl
    exact ⟨rfl, hgenerics.2 rfl, hports.2 rfl⟩

end Entity

namespace PackageHeader

theorem renamed_iff {h k : PackageHeader} : h.Renamed f k ↔ k = h.mapNames f := by
  have hcomponents : List.Forall₂ (Entity.Renamed f) h.components k.components ↔
      k.components = h.components.map (Entity.mapNames f) :=
    forall₂_iff_eq_map fun _ _ => Entity.renamed_iff
  constructor
  · rintro ⟨hname, hc, hfunctions, hextra⟩
    rw [mapNames, ← hname, ← hcomponents.1 hc, ← hfunctions, ← hextra]
  · rintro rfl
    exact ⟨rfl, hcomponents.2 rfl, rfl, rfl⟩

end PackageHeader

namespace PackageBody

theorem renamed_iff {b c : PackageBody} : b.Renamed f c ↔ c = b.mapNames f := by
  constructor
  · rintro ⟨hname, hfunctions, hextra⟩
    rw [mapNames, ← hname, ← hfunctions, ← hextra]
  · rintro rfl
    exact ⟨rfl, rfl, rfl⟩

end PackageBody

namespace Instance

theorem renamed_iff {i j : Instance} : i.Renamed f j ↔ j = i.mapNames f := by
  constructor
  · rintro ⟨hname, hreference, hextra⟩
    rw [mapNames, ← hname, ← Json.referenceRenamed_iff.1 hreference, ← hextra]
  · rintro rfl
    exact ⟨rfl, Json.referenceRenamed_iff.2 rfl, rfl⟩

end Instance

namespace Architecture

theorem renamed_iff {a b : Architecture} : a.Renamed f b ↔ b = a.mapNames f := by
  have hinstances : List.Forall₂ (Instance.Renamed f) a.instances b.instances ↔
      b.instances = a.instances.map (Instance.mapNames f) :=
    forall₂_iff_eq_map fun _ _ => Instance.renamed_iff
  constructor
  · rintro ⟨hname, hentity, hi, hextra⟩
    rw [mapNames, ← hname, ← hentity, ← hinstances.1 hi, ← hextra]
  · rintro rfl
    exact ⟨rfl, rfl, hinstances.2 rfl, rfl⟩

end Architecture

namespace Design

theorem renamed_iff {d e : Design} : d.Renamed f e ↔ e = d.mapNames f := by
  have himports : List.Forall₂ (Json.ReferenceRenamed f) d.imports e.imports ↔
      e.imports = d.imports.map (Json.mapReference f) :=
    forall₂_iff_eq_map fun _ _ => Json.referenceRenamed_iff
  have hheaders : List.Forall₂ (PackageHeader.Renamed f) d.headers e.headers ↔
      e.headers = d.headers.map (PackageHeader.mapNames f) :=
    forall₂_iff_eq_map fun _ _ => PackageHeader.renamed_iff
  have hentities : List.Forall₂ (Entity.Renamed f) d.entities e.entities ↔
      e.entities = d.entities.map (Entity.mapNames f) :=
    forall₂_iff_eq_map fun _ _ => Entity.renamed_iff
  have hbodies : List.Forall₂ (PackageBody.Renamed f) d.bodies e.bodies ↔
      e.bodies = d.bodies.map (PackageBody.mapNames f) :=
    forall₂_iff_eq_map fun _ _ => PackageBody.renamed_iff
  have harchitectures : List.Forall₂ (Architecture.Renamed f) d.architectures e.architectures ↔
      e.architectures = d.architectures.map (Architecture.mapNames f) :=
    forall₂_iff_eq_map fun _ _ => Architecture.renamed_iff
  constructor
  · rintro ⟨hi, hh, he, hb, ha, hextra⟩
    rw [mapNames, ← himports.1 hi, ← hheaders.1 hh, ← hentities.1 he, ← hbodies.1 hb,
      ← harchitectures.1 ha, ← hextra]
  · rintro rfl
    exact ⟨himports.2 rfl, hheaders.2 rfl, hentities.2 rfl, hbodies.2 rfl, harchitectures.2 rfl,
      rfl⟩

end Design

/-! ## Canonical names -/

/-- What was found in an interface by its name is found by its new name. -/
theorem Entity.found_renamed {u : Entity} (hu : (u.mapNames f).firstRepeat = none) :
    (∀ g ∈ u.generics, ∃ g', (u.mapNames f).generic? (f g.name) = some g' ∧ g.Renamed f g') ∧
      ∀ p ∈ u.ports, ∀ n, p.name? = some n →
        ∃ q, (u.mapNames f).port? (f n) = some q ∧ p.Renamed f q := by
  constructor
  · intro g hg
    refine ⟨g.mapNames f, (generic?_eq_some_iff hu).2 ⟨?_, rfl⟩, Variable.renamed_iff.2 rfl⟩
    exact List.mem_map_of_mem hg
  · intro p hp n hn
    refine ⟨p.mapNames f, (port?_eq_some_iff hu).2 ⟨?_, ?_⟩, Port.renamed_iff.2 rfl⟩
    · exact List.mem_map_of_mem hp
    · rw [Port.name?_mapNames, hn, Option.map_some]

namespace Design

/-- Making names canonical renames a design, and the result is determined by that. Whatever had a
name is found by its canonical name, also through the architectures that refer to it. -/
theorem canonical_renames {l : Language} {d e : Design} (h : d.canonical l = .ok e) :
    (∀ x, d.Renamed l.canonical x ↔ x = e) ∧
      (∀ u ∈ d.headers, ∃ v, e.header? (l.canonical u.name) = some v ∧
        u.Renamed l.canonical v) ∧
      (∀ u ∈ d.bodies, ∃ v, e.body? (l.canonical u.name) = some v ∧ u.Renamed l.canonical v) ∧
      ∀ u ∈ d.entities, ∃ v, e.entity? (l.canonical u.name) = some v ∧
        u.Renamed l.canonical v ∧
        (∀ g ∈ u.generics, ∃ g', v.generic? (l.canonical g.name) = some g' ∧
          g.Renamed l.canonical g') ∧
        (∀ p ∈ u.ports, ∀ n, p.name? = some n →
          ∃ q, v.port? (l.canonical n) = some q ∧ p.Renamed l.canonical q) ∧
        ∀ a ∈ d.architectures, l.canonical a.entity = l.canonical u.name →
          ∃ b ∈ e.architectures, a.Renamed l.canonical b ∧ e.entity? b.entity = some v := by
  obtain ⟨hrepeat, rfl⟩ := canonical_eq_ok_iff.1 h
  obtain ⟨-, hinterfaces, hunique⟩ := firstRepeat_eq_none_iff.1 hrepeat
  refine ⟨fun x => renamed_iff, fun u hu => ?_, fun u hu => ?_, fun u hu => ?_⟩
  · refine ⟨u.mapNames l.canonical, (header?_eq_some_iff hunique).2 ⟨?_, rfl⟩,
      PackageHeader.renamed_iff.2 rfl⟩
    exact List.mem_map_of_mem hu
  · refine ⟨u.mapNames l.canonical, (body?_eq_some_iff hunique).2 ⟨?_, rfl⟩,
      PackageBody.renamed_iff.2 rfl⟩
    exact List.mem_map_of_mem hu
  · have hmem : u.mapNames l.canonical ∈ (d.mapNames l.canonical).entities :=
      List.mem_map_of_mem hu
    have hfound : (d.mapNames l.canonical).entity? (l.canonical u.name) =
        some (u.mapNames l.canonical) :=
      (entity?_eq_some_iff hunique).2 ⟨hmem, rfl⟩
    obtain ⟨hgenerics, hports⟩ := Entity.found_renamed (hinterfaces _ hmem)
    refine ⟨_, hfound, Entity.renamed_iff.2 rfl, hgenerics, hports, fun a ha hname => ?_⟩
    refine ⟨a.mapNames l.canonical, List.mem_map_of_mem ha, Architecture.renamed_iff.2 rfl, ?_⟩
    rw [← hfound, ← hname, Architecture.mapNames]

/-- A counter, and an architecture that spells its name in capitals. -/
def shoutedCounter : Design :=
  { counter with architectures := [⟨"RTL", "COUNTER", [], []⟩] }

theorem shoutedCounter_canonical_renames : ∃ e v, shoutedCounter.canonical .vhdl = .ok e ∧
    e.entity? "counter" = some v ∧ (∃ p, v.port? "q" = some p) ∧
    ∃ b ∈ e.architectures, b.name = "rtl" ∧ e.entity? b.entity = some v := by
  have hcanonical : shoutedCounter.canonical .vhdl =
      .ok (shoutedCounter.mapNames Language.vhdl.canonical) :=
    canonical_eq_ok_iff.2 ⟨by decide +kernel, rfl⟩
  have hcounter : Language.vhdl.canonical "counter" = "counter" := by decide +kernel
  have hq : Language.vhdl.canonical "q" = "q" := by decide +kernel
  have hrtl : Language.vhdl.canonical "RTL" = "rtl" := by decide +kernel
  obtain ⟨-, -, -, hentities⟩ := canonical_renames hcanonical
  obtain ⟨v, hv, -, -, hports, harchitectures⟩ := hentities _ (List.mem_singleton.2 rfl)
  obtain ⟨p, hp, -⟩ := hports _ List.mem_cons_self _ rfl
  obtain ⟨b, hb, hrenamed, hfound⟩ :=
    harchitectures _ (List.mem_singleton.2 rfl) (by decide +kernel)
  refine ⟨_, v, hcanonical, ?_, ⟨p, ?_⟩, b, hb, ?_, hfound⟩
  · rwa [hcounter] at hv
  · rwa [hq] at hp
  · exact hrenamed.name.trans hrtl

end Design

end HdlInterface
