import Mathlib.Data.List.Nodup
import HdlInterface.Design.Canonical
import HdlInterface.Proofs.Design.Text
import HdlInterface.Proofs.Text.LowerCase

/-!
# Canonical names, once and again

Renaming twice is renaming once (`Design.mapNames_mapNames`), and canonical names are their own
canonical names (`Design.mapNames_canonical`). Renaming keeps what makes a design readable from its
text; that names stay different is what the search for a repeated name makes sure
(`Design.firstRepeat_eq_none_iff`).
-/

namespace HdlInterface

theorem Language.canonical_canonical (l : Language) (id : String) :
    l.canonical (l.canonical id) = l.canonical id := by
  cases l with
  | vhdl => simp only [canonical_vhdl, lowerCase_lowerCase]
  | verilog => simp only [canonical_verilog]

/-! ## Repeated names -/

theorem firstRepeated_eq_none_iff {α : Type} {inner : α → Option String} {name : α → String}
    {seen : List String} {xs : List α} : firstRepeated inner name seen xs = none ↔
      (∀ x ∈ xs, inner x = none) ∧ (xs.map name).Nodup ∧ ∀ x ∈ xs, name x ∉ seen := by
  induction xs generalizing seen with
  | nil => simp [firstRepeated]
  | cons x xs ih =>
      rw [firstRepeated, Option.or_eq_none_iff, List.forall_mem_cons, List.forall_mem_cons,
        List.map_cons, List.nodup_cons]
      split_ifs with h
      · simp [h]
      · simp only [ih, List.mem_cons, not_or, List.mem_map, not_exists, not_and]
        constructor
        · rintro ⟨hx, hxs, hnodup, hseen⟩
          exact ⟨⟨hx, hxs⟩, ⟨fun y hy => (hseen y hy).1, hnodup⟩, h, fun y hy => (hseen y hy).2⟩
        · rintro ⟨⟨hx, hxs⟩, ⟨hne, hnodup⟩, -, hseen⟩
          exact ⟨hx, hxs, hnodup, fun y hy => ⟨hne y hy, hseen y hy⟩⟩

theorem firstRepeat_eq_none_iff {names : List String} : firstRepeat names = none ↔ names.Nodup := by
  rw [firstRepeat, firstRepeated_eq_none_iff, List.map_id]
  simp

theorem Entity.firstRepeat_eq_none_iff {e : Entity} : e.firstRepeat = none ↔
    (e.generics.map Variable.name).Nodup ∧ (e.ports.filterMap Port.name?).Nodup := by
  rw [firstRepeat, Option.or_eq_none_iff, HdlInterface.firstRepeat_eq_none_iff,
    HdlInterface.firstRepeat_eq_none_iff]

theorem PackageHeader.firstRepeat_eq_none_iff {h : PackageHeader} : h.firstRepeat = none ↔
    (∀ c ∈ h.components, c.firstRepeat = none) ∧ (h.components.map Entity.name).Nodup := by
  rw [firstRepeat, firstRepeated_eq_none_iff]
  simp

theorem Design.firstRepeat_eq_none_iff {d : Design} : d.firstRepeat = none ↔
    (∀ h ∈ d.headers, h.firstRepeat = none) ∧ (∀ e ∈ d.entities, e.firstRepeat = none) ∧
      d.UniqueNames := by
  rw [firstRepeat, Option.or_eq_none_iff, Option.or_eq_none_iff, firstRepeated_eq_none_iff,
    firstRepeated_eq_none_iff, HdlInterface.firstRepeat_eq_none_iff]
  constructor
  · rintro ⟨⟨hheaders, hnames, -⟩, ⟨hentities, hentityNames, -⟩, hbodyNames⟩
    exact ⟨hheaders, hentities, hnames, hentityNames, hbodyNames⟩
  · rintro ⟨hheaders, hentities, hnames, hentityNames, hbodyNames⟩
    exact ⟨⟨hheaders, hnames, nofun⟩, ⟨hentities, hentityNames, nofun⟩, hbodyNames⟩

theorem unlessRepeated_eq_ok_iff {α : Type} {firstRepeat : α → Option String} {x y : α} :
    unlessRepeated firstRepeat x = .ok y ↔ firstRepeat x = none ∧ x = y := by
  unfold unlessRepeated
  split
  · next h => simp [h]
  · next h => simp [h]

theorem Design.canonical_eq_ok_iff {l : Language} {d e : Design} : d.canonical l = .ok e ↔
    (d.mapNames l.canonical).firstRepeat = none ∧ d.mapNames l.canonical = e :=
  unlessRepeated_eq_ok_iff

/-! ## Renaming twice -/

section Twice

variable (f g : String → String)

theorem Json.mapReference_mapReference (v : Json) :
    (v.mapReference f).mapReference g = v.mapReference (g ∘ f) := by
  cases v with
  | array parts =>
      simp only [mapReference, List.map_map, array.injEq]
      refine List.map_congr_left fun part _ => ?_
      cases part <;> rfl
  | _ => rfl

namespace Expr

mutual

theorem mapNames_mapNames : (e : Expr) → (e.mapNames f).mapNames g = e.mapNames (g ∘ f)
  | literal (.name _) => by simp [mapNames]
  | literal (.integer ..) => rfl
  | literal (.string _) => rfl
  | binary _ x y => by simp only [mapNames, mapNames_mapNames x, mapNames_mapNames y]
  | nary _ x xs => by simp only [mapNames, mapNames_mapNames x, mapNamesList_mapNamesList xs]

theorem mapNamesList_mapNamesList :
    (xs : List Expr) → mapNamesList g (mapNamesList f xs) = mapNamesList (g ∘ f) xs
  | [] => rfl
  | x :: xs => by simp only [mapNamesList, mapNames_mapNames x, mapNamesList_mapNamesList xs]

end

end Expr

theorem Variable.mapNames_mapNames (v : Variable) :
    (v.mapNames f).mapNames g = v.mapNames (g ∘ f) := by
  simp [mapNames, Expr.mapNames_mapNames, Function.comp_def]

theorem Port.mapNames_mapNames (p : Port Variable) :
    (p.mapNames f).mapNames g = p.mapNames (g ∘ f) := by
  simp [mapNames, Variable.mapNames_mapNames, Function.comp_def]

theorem Entity.mapNames_mapNames (e : Entity) : (e.mapNames f).mapNames g = e.mapNames (g ∘ f) := by
  simp [mapNames, Variable.mapNames_mapNames, Port.mapNames_mapNames, Function.comp_def]

theorem PackageHeader.mapNames_mapNames (h : PackageHeader) :
    (h.mapNames f).mapNames g = h.mapNames (g ∘ f) := by
  simp [mapNames, Entity.mapNames_mapNames, Function.comp_def]

theorem PackageBody.mapNames_mapNames (b : PackageBody) :
    (b.mapNames f).mapNames g = b.mapNames (g ∘ f) := by
  simp [mapNames]

theorem Instance.mapNames_mapNames (i : Instance) :
    (i.mapNames f).mapNames g = i.mapNames (g ∘ f) := by
  simp [mapNames, Json.mapReference_mapReference]

theorem Architecture.mapNames_mapNames (a : Architecture) :
    (a.mapNames f).mapNames g = a.mapNames (g ∘ f) := by
  simp [mapNames, Instance.mapNames_mapNames, Function.comp_def]

theorem Design.mapNames_mapNames (d : Design) : (d.mapNames f).mapNames g = d.mapNames (g ∘ f) := by
  simp [mapNames, Json.mapReference_mapReference, PackageHeader.mapNames_mapNames,
    Entity.mapNames_mapNames, PackageBody.mapNames_mapNames, Architecture.mapNames_mapNames,
    Function.comp_def]

end Twice

/-- A design with canonical names keeps them. -/
theorem Design.mapNames_canonical (l : Language) (d : Design) :
    (d.mapNames l.canonical).mapNames l.canonical = d.mapNames l.canonical := by
  rw [mapNames_mapNames]
  congr 1
  exact funext l.canonical_canonical

/-! ## What renaming keeps -/

section Kept

variable {f : String → String}

theorem Json.all_mapReference {p : Json → Bool} (hp : Json.Lenient p) {v : Json} (hv : v.all p) :
    (v.mapReference f).all p := by
  cases v with
  | array parts =>
      refine hp.array fun w hw => ?_
      obtain ⟨part, hpart, rfl⟩ := List.mem_map.1 hw
      have hall := (all_array.1 hv).2 part hpart
      cases part with
      | string s => exact hp.string (f s)
      | _ => exact hall
  | string s => exact hp.string (f s)
  | _ => exact hv

theorem Instance.all_raw_mapNames {p : Json → Bool} (hp : Json.Lenient p) {i : Instance}
    (hraw : ∀ v ∈ i.raw, v.all p) : ∀ v ∈ (i.mapNames f).raw, v.all p := by
  simp only [raw, mapNames, List.forall_mem_cons] at hraw ⊢
  exact ⟨Json.all_mapReference hp hraw.1, hraw.2⟩

theorem Architecture.all_raw_mapNames {p : Json → Bool} (hp : Json.Lenient p) {a : Architecture}
    (hraw : ∀ v ∈ a.raw, v.all p) : ∀ v ∈ (a.mapNames f).raw, v.all p := by
  simp only [raw, mapNames, List.forall_mem_cons, List.forall_mem_flatMap, List.forall_mem_map]
    at hraw ⊢
  exact ⟨hraw.1, fun i hi => Instance.all_raw_mapNames hp (hraw.2 i hi)⟩

theorem Design.all_raw_mapNames {p : Json → Bool} (hp : Json.Lenient p) {d : Design}
    (hraw : ∀ v ∈ d.raw, v.all p) : ∀ v ∈ (d.mapNames f).raw, v.all p := by
  obtain ⟨hextra, himports, hheaders, hbodies, harchitectures⟩ := forall_raw_iff.1 hraw
  refine forall_raw_iff.2 ⟨hextra, ?_, ?_, ?_, ?_⟩ <;> rw [mapNames, List.forall_mem_map]
  · exact fun v hv => Json.all_mapReference hp (himports v hv)
  · exact hheaders
  · exact hbodies
  · exact fun a ha => Architecture.all_raw_mapNames hp (harchitectures a ha)

theorem Entity.Complete.mapNames {e : Entity} (h : e.Complete) : (e.mapNames f).Complete := by
  rw [Complete, Entity.mapNames, List.forall_mem_map]
  exact fun p hp => ⟨(h p hp).1, by simpa [Port.mapNames] using (h p hp).2⟩

theorem PackageHeader.Lossless.mapNames {h : PackageHeader} (hh : h.Lossless)
    (hrepeat : (h.mapNames f).firstRepeat = none) : (h.mapNames f).Lossless where
  complete := by
    rw [PackageHeader.mapNames, List.forall_mem_map]
    exact fun c hc => (hh.complete c hc).mapNames
  names := (firstRepeat_eq_none_iff.1 hrepeat).2
  extra := hh.extra

theorem Architecture.Lossless.mapNames {a : Architecture} (ha : a.Lossless) :
    (a.mapNames f).Lossless where
  instances := by
    rw [Architecture.mapNames, List.forall_mem_map]
    exact fun i hi => ⟨(ha.instances i hi).extra⟩
  extra := ha.extra

namespace Design

variable {d e : Design}

theorem Lossless.mapNames (hd : d.Lossless) (hrepeat : (d.mapNames f).firstRepeat = none) :
    (d.mapNames f).Lossless := by
  have hheaders := (firstRepeat_eq_none_iff.1 hrepeat).1
  constructor
  case headers =>
    rw [Design.mapNames, List.forall_mem_map] at hheaders ⊢
    exact fun h hh => (hd.headers h hh).mapNames (hheaders h hh)
  case entities =>
    rw [Design.mapNames, List.forall_mem_map]
    exact fun e he => (hd.entities e he).mapNames
  case bodies =>
    rw [Design.mapNames, List.forall_mem_map]
    exact fun b hb => ⟨(hd.bodies b hb).extra⟩
  case architectures =>
    rw [Design.mapNames, List.forall_mem_map]
    exact fun a ha => (hd.architectures a ha).mapNames
  case extra => exact hd.extra

theorem Storable.mapNames (hd : d.Storable) (hrepeat : (d.mapNames f).firstRepeat = none) :
    (d.mapNames f).Storable where
  wellFormed := all_raw_mapNames Json.lenient_distinctKeys hd.wellFormed
  integral := all_raw_mapNames Json.lenient_notDouble hd.integral
  uniqueNames := (firstRepeat_eq_none_iff.1 hrepeat).2.2
  lossless := hd.lossless.mapNames hrepeat

@[simp] theorem portCount_mapNames (f : String → String) (d : Design) :
    (d.mapNames f).portCount = d.portCount := by
  simp [portCount, Design.mapNames, Entity.mapNames, List.flatMap_map, List.length_flatMap]

end Design

end Kept

end HdlInterface
