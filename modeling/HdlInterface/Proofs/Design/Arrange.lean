import HdlInterface.Proofs.Design.Canonical

/-!
# Arranged interfaces

Arranging moves generics and ports and does nothing else: what holds of each of them still holds,
and an arranged design is left as it is (`Design.arrange_arrange`), with names that are canonical
(`Design.mapNames_arrange`) and not repeated (`Design.firstRepeat_arrange`).
-/

namespace HdlInterface

/-- Arranging a list twice by a preorder is arranging it once. -/
theorem mergeSort_mergeSort {α : Type} {le : α → α → Bool}
    (htrans : ∀ a b c, le a b = true → le b c = true → le a c = true)
    (htotal : ∀ a b, (le a b || le b a) = true) (xs : List α) :
    (xs.mergeSort le).mergeSort le = xs.mergeSort le :=
  List.mergeSort_of_pairwise (List.pairwise_mergeSort htrans htotal xs)

/-! ## Entities -/

namespace Entity

theorem arrange_arrange (e : Entity) : e.arrange.arrange = e.arrange := by
  have hgenerics := mergeSort_mergeSort (fun a b c : Variable => nameLE_trans a.name b.name c.name)
    (fun a b => nameLE_total a.name b.name) e.generics
  have hports := mergeSort_mergeSort
    (fun a b c : Port Variable => nameLE_trans a.name? b.name? c.name?)
    (fun a b => nameLE_total a.name? b.name?) e.ports
  simp only [arrange, hgenerics, hports]

theorem complete_arrange {e : Entity} (h : e.Complete) : e.arrange.Complete :=
  fun p hp => h p (List.mem_mergeSort.1 hp)

theorem firstRepeat_arrange {e : Entity} (h : e.firstRepeat = none) :
    e.arrange.firstRepeat = none := by
  rw [firstRepeat_eq_none_iff] at h ⊢
  have hgenerics : (e.arrange.generics.map Variable.name).Perm (e.generics.map Variable.name) :=
    (List.mergeSort_perm ..).map _
  have hports : (e.arrange.ports.filterMap Port.name?).Perm (e.ports.filterMap Port.name?) :=
    (List.mergeSort_perm ..).filterMap _
  exact ⟨hgenerics.nodup_iff.2 h.1, hports.nodup_iff.2 h.2⟩

theorem mapNames_eq_self_iff {f : String → String} {e : Entity} : e.mapNames f = e ↔
    f e.name = e.name ∧ (∀ g ∈ e.generics, g.mapNames f = g) ∧
      ∀ p ∈ e.ports, p.mapNames f = p := by
  obtain ⟨name, generics, ports⟩ := e
  simp only [mapNames, mk.injEq, map_eq_self_iff]

theorem mapNames_arrange {f : String → String} {e : Entity} (h : e.mapNames f = e) :
    e.arrange.mapNames f = e.arrange := by
  rw [mapNames_eq_self_iff] at h ⊢
  obtain ⟨hname, hgenerics, hports⟩ := h
  exact ⟨hname, fun g hg => hgenerics g (List.mem_mergeSort.1 hg),
    fun p hp => hports p (List.mem_mergeSort.1 hp)⟩

end Entity

/-! ## Package headers -/

namespace PackageHeader

/-- Arranges the interface of every component by name. -/
def arrange (h : PackageHeader) : PackageHeader :=
  { h with components := h.components.map Entity.arrange }

theorem arrange_arrange (h : PackageHeader) : h.arrange.arrange = h.arrange := by
  simp [arrange, Entity.arrange_arrange]

theorem map_name_arrange (h : PackageHeader) :
    h.arrange.components.map Entity.name = h.components.map Entity.name := by
  simp [arrange, Entity.arrange, Function.comp_def]

theorem lossless_arrange {h : PackageHeader} (hh : h.Lossless) : h.arrange.Lossless where
  complete := by
    rw [arrange, List.forall_mem_map]
    exact fun c hc => Entity.complete_arrange (hh.complete c hc)
  names := h.map_name_arrange ▸ hh.names
  extra := hh.extra

theorem firstRepeat_arrange {h : PackageHeader} (hrepeat : h.firstRepeat = none) :
    h.arrange.firstRepeat = none := by
  rw [firstRepeat_eq_none_iff] at hrepeat ⊢
  refine ⟨?_, h.map_name_arrange ▸ hrepeat.2⟩
  rw [arrange, List.forall_mem_map]
  exact fun c hc => Entity.firstRepeat_arrange (hrepeat.1 c hc)

theorem mapNames_eq_self_iff {f : String → String} {h : PackageHeader} : h.mapNames f = h ↔
    f h.name = h.name ∧ ∀ c ∈ h.components, c.mapNames f = c := by
  obtain ⟨name, components, functions, extra⟩ := h
  simp only [mapNames, mk.injEq, map_eq_self_iff, and_true]

theorem mapNames_arrange {f : String → String} {h : PackageHeader} (hself : h.mapNames f = h) :
    h.arrange.mapNames f = h.arrange := by
  rw [mapNames_eq_self_iff] at hself ⊢
  refine ⟨hself.1, ?_⟩
  rw [arrange, List.forall_mem_map]
  exact fun c hc => Entity.mapNames_arrange (hself.2 c hc)

end PackageHeader

/-! ## Designs -/

namespace Design

theorem arrange_eq (d : Design) : d.arrange =
    { d with
      headers := d.headers.map PackageHeader.arrange
      entities := d.entities.map Entity.arrange } := rfl

theorem arrange_arrange (d : Design) : d.arrange.arrange = d.arrange := by
  simp [arrange_eq, PackageHeader.arrange_arrange, Entity.arrange_arrange]

theorem raw_arrange (d : Design) : d.arrange.raw = d.raw := by
  have hheader : ∀ h : PackageHeader, h.arrange.raw = h.raw := fun _ => rfl
  simp [raw, arrange_eq, List.flatMap_map, hheader]

theorem uniqueNames_arrange {d : Design} (hd : d.UniqueNames) : d.arrange.UniqueNames where
  headers := by simpa [arrange, Function.comp_def] using hd.headers
  entities := by simpa [arrange, Entity.arrange, Function.comp_def] using hd.entities
  bodies := hd.bodies

theorem lossless_arrange {d : Design} (hd : d.Lossless) : d.arrange.Lossless where
  headers := by
    rw [arrange_eq, List.forall_mem_map]
    exact fun h hh => PackageHeader.lossless_arrange (hd.headers h hh)
  entities := by
    rw [arrange_eq, List.forall_mem_map]
    exact fun e he => Entity.complete_arrange (hd.entities e he)
  bodies := hd.bodies
  architectures := hd.architectures
  extra := hd.extra

theorem Storable.arrange {d : Design} (hd : d.Storable) : d.arrange.Storable where
  wellFormed := by
    rw [WellFormed, raw_arrange]
    exact hd.wellFormed
  integral := by
    rw [Integral, raw_arrange]
    exact hd.integral
  uniqueNames := uniqueNames_arrange hd.uniqueNames
  lossless := lossless_arrange hd.lossless

theorem firstRepeat_arrange {d : Design} (h : d.firstRepeat = none) :
    d.arrange.firstRepeat = none := by
  rw [firstRepeat_eq_none_iff] at h ⊢
  obtain ⟨hheaders, hentities, hnames⟩ := h
  refine ⟨?_, ?_, uniqueNames_arrange hnames⟩ <;> rw [arrange_eq, List.forall_mem_map]
  · exact fun h hh => PackageHeader.firstRepeat_arrange (hheaders h hh)
  · exact fun e he => Entity.firstRepeat_arrange (hentities e he)

theorem mapNames_eq_self_iff {f : String → String} {d : Design} : d.mapNames f = d ↔
    d.imports.map (Json.mapReference f) = d.imports ∧ (∀ h ∈ d.headers, h.mapNames f = h) ∧
      (∀ e ∈ d.entities, e.mapNames f = e) ∧
      d.bodies.map (PackageBody.mapNames f) = d.bodies ∧
      d.architectures.map (Architecture.mapNames f) = d.architectures := by
  obtain ⟨imports, headers, entities, bodies, architectures, extra⟩ := d
  simp only [mapNames, mk.injEq, map_eq_self_iff, and_true]

/-- Names that are canonical stay so. -/
theorem mapNames_arrange {f : String → String} {d : Design} (h : d.mapNames f = d) :
    d.arrange.mapNames f = d.arrange := by
  rw [mapNames_eq_self_iff] at h ⊢
  obtain ⟨himports, hheaders, hentities, hbodies, harchitectures⟩ := h
  refine ⟨himports, ?_, ?_, hbodies, harchitectures⟩ <;> rw [arrange_eq, List.forall_mem_map]
  · exact fun h hh => PackageHeader.mapNames_arrange (hheaders h hh)
  · exact fun e he => Entity.mapNames_arrange (hentities e he)

theorem portCount_arrange (d : Design) : d.arrange.portCount = d.portCount := by
  simp [portCount, arrange, Entity.arrange, List.flatMap_map, List.length_flatMap]

end Design

end HdlInterface
