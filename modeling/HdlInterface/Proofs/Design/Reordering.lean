import HdlInterface.Proofs.Design.Arrange
import HdlInterface.Proofs.Design.Lookup
import HdlInterface.Proofs.Interface.Order

/-!
# Order of declarations

Generics and ports may be declared in any order. Names can be made canonical or not whatever that
order is, and once they are, arranging the interfaces leaves nothing of it
(`Design.arranged_canonical_form`). Lower-casing names does not keep their order, so this rests on
the names being different.
-/

namespace HdlInterface

/-! ## Other orders -/

/-- The generics and the ports in another order. Ports without a signal keep theirs. -/
structure Entity.Reordered (d e : Entity) : Prop where
  name : d.name = e.name
  generics : d.generics.Perm e.generics
  ports : d.ports.Perm e.ports
  noSignal : (d.ports.filter fun p => p.signal.isNone) = e.ports.filter fun p => p.signal.isNone

structure PackageHeader.Reordered (h k : PackageHeader) : Prop where
  name : h.name = k.name
  components : List.Forall₂ Entity.Reordered h.components k.components
  functions : h.functions = k.functions
  extra : h.extra = k.extra

structure Design.Reordered (d e : Design) : Prop where
  imports : d.imports = e.imports
  headers : List.Forall₂ PackageHeader.Reordered d.headers e.headers
  entities : List.Forall₂ Entity.Reordered d.entities e.entities
  bodies : d.bodies = e.bodies
  architectures : d.architectures = e.architectures
  extra : d.extra = e.extra

/-! ## Lists -/

theorem forall_mem_iff_of_forall₂ {α β : Type} {R : α → β → Prop} {P : α → Prop} {Q : β → Prop}
    {xs : List α} {ys : List β} (h : List.Forall₂ R xs ys) (hPQ : ∀ a b, R a b → (P a ↔ Q b)) :
    (∀ a ∈ xs, P a) ↔ ∀ b ∈ ys, Q b := by
  induction h with
  | nil => simp
  | cons hab _ ih => rw [List.forall_mem_cons, List.forall_mem_cons, hPQ _ _ hab, ih]

/-- Where keys differ, lists of the same things are arranged alike if the things without a key
stand in the same order. -/
theorem arrangedBy_eq_of_perm {α : Type} {key : α → Option String} {xs ys : List α}
    (hxs : (xs.filterMap key).Nodup) (hperm : xs.Perm ys)
    (hnone : xs.filter (key · == none) = ys.filter (key · == none)) :
    arrangedBy key xs = arrangedBy key ys := by
  refine arrangedBy_eq_arrangedBy_iff.2 fun k => ?_
  cases k with
  | none => exact hnone
  | some n =>
      -- at most one thing has that key
      have honly : ∀ x ∈ xs, key x = some n → xs.find? (key · == some n) = some x :=
        fun x hx hn => (find?_name?_eq_some_iff hxs).2 ⟨hx, hn⟩
      have hsame : ∀ x y, x ∈ xs.filter (key · == some n) → y ∈ ys.filter (key · == some n) →
          True → True → x = y := by
        intro x y hx hy _ _
        rw [List.mem_filter, beq_iff_eq] at hx hy
        have hfound := honly x hx.1 hx.2
        rw [honly y (hperm.mem_iff.2 hy.1) hy.2] at hfound
        exact (Option.some.inj hfound).symm
      exact List.Perm.eq_of_pairwise hsame (List.pairwise_of_forall fun _ _ => trivial)
        (List.pairwise_of_forall fun _ _ => trivial) (hperm.filter _)

/-! ## Entities -/

theorem Port.name?_beq_none {p : Port Variable} : (p.name? == none) = p.signal.isNone := by
  cases p with | mk _ signal => cases signal <;> rfl

namespace Entity

theorem reordered_arrange (e : Entity) : e.Reordered e.arrange where
  name := rfl
  generics := (perm_arrangedBy e.generics).symm
  ports := (perm_arrangedBy e.ports).symm
  noSignal := by
    simp only [← Port.name?_beq_none, arrange_eq, filter_arrangedBy]

namespace Reordered

variable {d e : Entity} (h : d.Reordered e)

include h

theorem mapNames (f : String → String) : (d.mapNames f).Reordered (e.mapNames f) where
  name := congrArg f h.name
  generics := h.generics.map _
  ports := h.ports.map _
  noSignal := by
    have hsignal : ∀ ports : List (Port Variable),
        (ports.map (Port.mapNames f)).filter (fun p => p.signal.isNone) =
          (ports.filter fun p => p.signal.isNone).map (Port.mapNames f) := fun ports => by
      rw [List.filter_map]
      congr 1
      exact List.filter_congr fun p _ => by simp [Port.mapNames]
    rw [Entity.mapNames, Entity.mapNames, hsignal, hsignal, h.noSignal]

theorem firstRepeat_eq_none_iff : d.firstRepeat = none ↔ e.firstRepeat = none := by
  rw [Entity.firstRepeat_eq_none_iff, Entity.firstRepeat_eq_none_iff,
    (h.generics.map Variable.name).nodup_iff, (h.ports.filterMap Port.name?).nodup_iff]

theorem arrange_eq (hd : d.firstRepeat = none) : d.arrange = e.arrange := by
  obtain ⟨hgenericNames, hportNames⟩ := Entity.firstRepeat_eq_none_iff.1 hd
  have hgenerics : arrangedBy (fun g => some g.name) d.generics =
      arrangedBy (fun g => some g.name) e.generics :=
    arrangedBy_eq_of_perm (by rwa [List.filterMap_eq_map']) h.generics (by simp)
  have hports : arrangedBy Port.name? d.ports = arrangedBy Port.name? e.ports :=
    arrangedBy_eq_of_perm hportNames h.ports (by
      simpa only [Port.name?_beq_none] using h.noSignal)
  rw [Entity.arrange_eq, Entity.arrange_eq, hgenerics, hports, h.name]

end Reordered

end Entity

/-! ## Package headers -/

namespace PackageHeader

theorem reordered_arrange (h : PackageHeader) : h.Reordered h.arrange where
  name := rfl
  components := List.forall₂_map_right_iff.2
    (List.forall₂_same.2 fun c _ => c.reordered_arrange)
  functions := rfl
  extra := rfl

namespace Reordered

variable {h k : PackageHeader} (hk : h.Reordered k)

include hk

theorem mapNames (f : String → String) : (h.mapNames f).Reordered (k.mapNames f) where
  name := congrArg f hk.name
  components := List.forall₂_map_left_iff.2 (List.forall₂_map_right_iff.2
    (hk.components.imp fun _ _ hc => hc.mapNames f))
  functions := hk.functions
  extra := hk.extra

theorem firstRepeat_eq_none_iff : h.firstRepeat = none ↔ k.firstRepeat = none := by
  rw [PackageHeader.firstRepeat_eq_none_iff, PackageHeader.firstRepeat_eq_none_iff,
    forall_mem_iff_of_forall₂ hk.components fun _ _ hc => hc.firstRepeat_eq_none_iff,
    map_eq_map_of_forall₂ hk.components fun _ _ hc => hc.name]

theorem arrange_eq (hh : h.firstRepeat = none) : h.arrange = k.arrange := by
  have hcomponents : h.components.map Entity.arrange = k.components.map Entity.arrange :=
    map_eq_map_of_forall₂ (forall₂_mem_left hk.components) fun c _ ⟨hc, hreordered⟩ =>
      hreordered.arrange_eq ((PackageHeader.firstRepeat_eq_none_iff.1 hh).1 c hc)
  rw [arrange, arrange, hcomponents, hk.name, hk.functions, hk.extra]

end Reordered

end PackageHeader

/-! ## Designs -/

namespace Design

theorem reordered_arrange (d : Design) : d.Reordered d.arrange where
  imports := rfl
  headers := List.forall₂_map_right_iff.2 (List.forall₂_same.2 fun h _ => h.reordered_arrange)
  entities := List.forall₂_map_right_iff.2 (List.forall₂_same.2 fun e _ => e.reordered_arrange)
  bodies := rfl
  architectures := rfl
  extra := rfl

namespace Reordered

variable {d e : Design} (h : d.Reordered e)

include h

theorem mapNames (f : String → String) : (d.mapNames f).Reordered (e.mapNames f) where
  imports := congrArg (List.map _) h.imports
  headers := List.forall₂_map_left_iff.2 (List.forall₂_map_right_iff.2
    (h.headers.imp fun _ _ hh => hh.mapNames f))
  entities := List.forall₂_map_left_iff.2 (List.forall₂_map_right_iff.2
    (h.entities.imp fun _ _ he => he.mapNames f))
  bodies := congrArg (List.map _) h.bodies
  architectures := congrArg (List.map _) h.architectures
  extra := h.extra

theorem uniqueNames_iff : d.UniqueNames ↔ e.UniqueNames := by
  have hheaders := map_eq_map_of_forall₂ h.headers fun _ _ hh => hh.name
  have hentities := map_eq_map_of_forall₂ h.entities fun _ _ he => he.name
  constructor
  · rintro ⟨hh, he, hb⟩
    exact ⟨hheaders ▸ hh, hentities ▸ he, h.bodies ▸ hb⟩
  · rintro ⟨hh, he, hb⟩
    exact ⟨hheaders ▸ hh, hentities ▸ he, h.bodies ▸ hb⟩

theorem firstRepeat_eq_none_iff : d.firstRepeat = none ↔ e.firstRepeat = none := by
  rw [Design.firstRepeat_eq_none_iff, Design.firstRepeat_eq_none_iff, h.uniqueNames_iff,
    forall_mem_iff_of_forall₂ h.headers fun _ _ hh => hh.firstRepeat_eq_none_iff,
    forall_mem_iff_of_forall₂ h.entities fun _ _ he => he.firstRepeat_eq_none_iff]

theorem arrange_eq (hd : d.firstRepeat = none) : d.arrange = e.arrange := by
  obtain ⟨hheaderNames, hentityNames, -⟩ := Design.firstRepeat_eq_none_iff.1 hd
  have hheaders : d.headers.map PackageHeader.arrange = e.headers.map PackageHeader.arrange :=
    map_eq_map_of_forall₂ (forall₂_mem_left h.headers) fun u _ ⟨hu, hreordered⟩ =>
      hreordered.arrange_eq (hheaderNames u hu)
  have hentities : d.entities.map Entity.arrange = e.entities.map Entity.arrange :=
    map_eq_map_of_forall₂ (forall₂_mem_left h.entities) fun u _ ⟨hu, hreordered⟩ =>
      hreordered.arrange_eq (hentityNames u hu)
  rw [Design.arrange_eq, Design.arrange_eq, hheaders, hentities, h.imports, h.bodies,
    h.architectures, h.extra]

theorem exists_canonical_iff (l : Language) :
    (∃ c, d.canonical l = .ok c) ↔ ∃ c, e.canonical l = .ok c := by
  simp only [canonical_eq_ok_iff, exists_and_left, exists_eq', and_true]
  exact (h.mapNames l.canonical).firstRepeat_eq_none_iff

theorem arrange_canonical {l : Language} {c c' : Design} (hc : d.canonical l = .ok c)
    (hc' : e.canonical l = .ok c') : c.arrange = c'.arrange := by
  obtain ⟨hrepeat, rfl⟩ := canonical_eq_ok_iff.1 hc
  obtain ⟨-, rfl⟩ := canonical_eq_ok_iff.1 hc'
  exact (h.mapNames l.canonical).arrange_eq hrepeat

end Reordered

/-- Designs that differ only in the order of their declarations have the same arranged canonical
form, or neither of them has one. In particular it changes nothing to arrange a design first. -/
theorem arranged_canonical_form (l : Language) (d : Design) :
    (∀ e, d.Reordered e →
      ((∃ c, d.canonical l = .ok c) ↔ ∃ c, e.canonical l = .ok c) ∧
        ∀ c c', d.canonical l = .ok c → e.canonical l = .ok c' →
          c.arrange = c'.arrange ∧ ∀ layout, c.arrange.toText layout = c'.arrange.toText layout) ∧
      ∀ a, (∃ c, d.arrange.canonical l = .ok c ∧ c.arrange = a) ↔
        ∃ c, d.canonical l = .ok c ∧ c.arrange = a := by
  constructor
  · intro e h
    refine ⟨h.exists_canonical_iff l, fun c c' hc hc' => ?_⟩
    rw [h.arrange_canonical hc hc']
    exact ⟨rfl, fun _ => rfl⟩
  · have h := d.reordered_arrange
    intro a
    constructor
    · rintro ⟨c', hc', rfl⟩
      obtain ⟨c, hc⟩ := (h.exists_canonical_iff l).2 ⟨c', hc'⟩
      exact ⟨c, hc, h.arrange_canonical hc hc'⟩
    · rintro ⟨c, hc, rfl⟩
      obtain ⟨c', hc'⟩ := (h.exists_canonical_iff l).1 ⟨c, hc⟩
      exact ⟨c', hc', (h.arrange_canonical hc hc').symm⟩

/-- An entity with these ports. -/
def multiplexer (ports : List (Port Variable)) : Design :=
  { empty with entities := [⟨"Mux", [], ports⟩] }

/-- The order in which two ports are declared shows in the canonical form, and no longer once that
is arranged. -/
theorem multiplexer_arranged_canonical_form :
    let a : Port Variable := .of .input ⟨"a", .id "bit", none⟩
    let b : Port Variable := .of .input ⟨"B", .id "bit", none⟩
    ∃ c c', (multiplexer [b, .empty, a]).canonical .vhdl = .ok c ∧
      (multiplexer [a, b, .empty]).canonical .vhdl = .ok c' ∧
      c.entities ≠ c'.entities ∧ c.arrange = c'.arrange := by
  intro a b
  have hreordered : (multiplexer [b, .empty, a]).Reordered (multiplexer [a, b, .empty]) :=
    { imports := rfl
      headers := .nil
      entities := .cons ⟨rfl, .refl _, by decide, by decide⟩ .nil
      bodies := rfl
      architectures := rfl
      extra := rfl }
  have hcanonical : ∀ ports, ((multiplexer ports).mapNames Language.vhdl.canonical).firstRepeat =
      none → (multiplexer ports).canonical .vhdl =
        .ok ((multiplexer ports).mapNames Language.vhdl.canonical) :=
    fun _ hports => canonical_eq_ok_iff.2 ⟨hports, rfl⟩
  have hc := hcanonical [b, .empty, a] (by decide +kernel)
  have hc' := hcanonical [a, b, .empty] (by decide +kernel)
  refine ⟨_, _, hc, hc', by decide +kernel, ?_⟩
  exact (((arranged_canonical_form .vhdl _).1 _ hreordered).2 _ _ hc hc').1

end Design

end HdlInterface
