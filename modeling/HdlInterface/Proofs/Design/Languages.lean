import HdlInterface.Proofs.Design.Arrange
import HdlInterface.Proofs.Design.Collision

/-!
# Canonical names in both languages

Canonical names are left alone when they are made canonical again. Where case matters nothing is
renamed, and only repeated names are refused; names that differ when case is disregarded differ
there as well (`Design.canonical_again`).
-/

namespace HdlInterface

/-! ## Renaming to the same name -/

theorem Json.mapReference_id (v : Json) : v.mapReference (fun name => name) = v := by
  cases v with
  | array parts =>
      rw [mapReference]
      refine congrArg array (map_eq_self_iff.2 fun part _ => ?_)
      cases part <;> rfl
  | _ => rfl

theorem Variable.mapNames_id (v : Variable) : v.mapNames (fun name => name) = v := by
  have hself : Expr.mapNames (fun name => name) = id := funext Expr.mapNames_id
  rw [mapNames, hself, Option.map_id_apply, id]

theorem Port.mapNames_id (p : Port Variable) : p.mapNames (fun name => name) = p := by
  have hself : Variable.mapNames (fun name => name) = id := funext Variable.mapNames_id
  rw [mapNames, hself, Option.map_id_apply]

theorem Entity.mapNames_id (e : Entity) : e.mapNames (fun name => name) = e :=
  mapNames_eq_self_iff.2 ⟨rfl, fun g _ => g.mapNames_id, fun p _ => p.mapNames_id⟩

theorem PackageHeader.mapNames_id (h : PackageHeader) : h.mapNames (fun name => name) = h :=
  mapNames_eq_self_iff.2 ⟨rfl, fun c _ => c.mapNames_id⟩

theorem Instance.mapNames_id (i : Instance) : i.mapNames (fun name => name) = i := by
  rw [mapNames, Json.mapReference_id]

theorem Architecture.mapNames_id (a : Architecture) : a.mapNames (fun name => name) = a := by
  rw [mapNames, map_eq_self_iff.2 fun i _ => i.mapNames_id]

theorem Design.mapNames_id (d : Design) : d.mapNames (fun name => name) = d :=
  mapNames_eq_self_iff.2
    ⟨map_eq_self_iff.2 fun v _ => v.mapReference_id, fun h _ => h.mapNames_id,
      fun e _ => e.mapNames_id, map_eq_self_iff.2 fun _ _ => rfl,
      map_eq_self_iff.2 fun a _ => a.mapNames_id⟩

/-! ## Names that differ -/

section Finer

variable {f g : String → String}

theorem nodup_map_of_comp {α : Type} {name : α → String} {xs : List α}
    (h : (xs.map fun x => (g ∘ f) (name x)).Nodup) : (xs.map fun x => f (name x)).Nodup := by
  have hmap : (xs.map fun x => (g ∘ f) (name x)) = (xs.map fun x => f (name x)).map g :=
    (List.map_map ..).symm
  exact (hmap ▸ h).of_map g

/-- Names that differ after two renamings differ after the first. -/
theorem Entity.Distinct.of_comp {e : Entity} (h : e.Distinct (g ∘ f)) : e.Distinct f where
  generics := nodup_map_of_comp h.generics
  ports := by
    have hports : (e.ports.filterMap fun p => p.name?.map (g ∘ f)) =
        (e.ports.filterMap fun p => p.name?.map f).map g := by
      simp [List.map_filterMap]
    exact (hports ▸ h.ports).of_map g

theorem Design.Distinct.of_comp {d : Design} (h : d.Distinct (g ∘ f)) : d.Distinct f where
  headers := nodup_map_of_comp h.headers
  components u hu := nodup_map_of_comp (h.components u hu)
  componentInterfaces u hu c hc := (h.componentInterfaces u hu c hc).of_comp
  entities := nodup_map_of_comp h.entities
  entityInterfaces e he := (h.entityInterfaces e he).of_comp
  bodies := nodup_map_of_comp h.bodies

end Finer

/-! ## Languages -/

namespace Design

/-- Where case matters, names are canonical as they are. -/
theorem canonical_verilog_eq_ok_iff {d e : Design} :
    d.canonical .verilog = .ok e ↔ d.firstRepeat = none ∧ d = e := by
  have hself : d.mapNames Language.verilog.canonical = d := d.mapNames_id
  rw [canonical_eq_ok_iff, hself]

theorem firstRepeat_eq_none_of_mapNames {f : String → String} {d : Design}
    (h : (d.mapNames f).firstRepeat = none) : d.firstRepeat = none := by
  have hdistinct : d.Distinct (f ∘ fun name => name) := firstRepeat_mapNames_eq_none_iff.1 h
  rw [← d.mapNames_id]
  exact firstRepeat_mapNames_eq_none_iff.2 hdistinct.of_comp

/-- Names that are canonical in one of the languages stay so, and names that are canonical
regardless of case are so in the other language as well. Where case matters a design is refused or
left as it is, and it is not refused if the other language accepts it. -/
theorem canonical_again (d : Design) :
    (∀ l e, d.canonical l = .ok e → e.canonical l = .ok e) ∧
      (∀ e, d.canonical .vhdl = .ok e →
        e.canonical .verilog = .ok e ∧ d.canonical .verilog = .ok d) ∧
      ∀ e, d.canonical .verilog = .ok e → e = d := by
  refine ⟨fun l e h => ?_, fun e h => ?_, fun e h => ?_⟩
  · obtain ⟨hrepeat, rfl⟩ := canonical_eq_ok_iff.1 h
    rw [canonical_eq_ok_iff, mapNames_canonical]
    exact ⟨hrepeat, rfl⟩
  · obtain ⟨hrepeat, rfl⟩ := canonical_eq_ok_iff.1 h
    exact ⟨canonical_verilog_eq_ok_iff.2 ⟨hrepeat, rfl⟩,
      canonical_verilog_eq_ok_iff.2 ⟨firstRepeat_eq_none_of_mapNames hrepeat, rfl⟩⟩
  · exact (canonical_verilog_eq_ok_iff.1 h).2.symm

/-- Names with a sigma at the end of a word, a dotted capital, and the sign of the unit kelvin. -/
def streets : Design :=
  { empty with
    headers := [⟨"ΟΔΟΣ", [], [], []⟩]
    entities := [⟨"İ", [], [.of .input ⟨"\u212A", .id "BIT", none⟩]⟩] }

theorem streets_canonical_again : ∃ e, streets.canonical .vhdl = .ok e ∧
    e.headers.map PackageHeader.name = ["οδος"] ∧ e.entities.map Entity.name = ["i\u0307"] ∧
    (e.entities.flatMap Entity.ports).map Port.name? = [some "k"] ∧
    e.canonical .vhdl = .ok e ∧ e.canonical .verilog = .ok e ∧
    streets.canonical .verilog = .ok streets := by
  have hcanonical : streets.canonical .vhdl = .ok (streets.mapNames Language.vhdl.canonical) :=
    canonical_eq_ok_iff.2 ⟨by decide +kernel, rfl⟩
  obtain ⟨hagain, hlanguages, -⟩ := canonical_again streets
  obtain ⟨hverilog, hkept⟩ := hlanguages _ hcanonical
  exact ⟨_, hcanonical, by decide +kernel, by decide +kernel, by decide +kernel,
    hagain _ _ hcanonical, hverilog, hkept⟩

end Design

end HdlInterface
