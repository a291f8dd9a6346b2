import HdlInterface.Interface.Document
import HdlInterface.Proofs.Expr.Document

/-!
# Interfaces as documents

What it takes for an object to be read as a given variable, port or entity. Every variable can be
written, a port or an entity exactly if it is complete (`Entity.exists_toFields_iff`); and what was
written is read back (`Entity.ofFields_of_toFields`).
-/

namespace HdlInterface

/-! ## Variables -/

namespace Variable

/-- The fields describe the variable; a default value that is null counts as absent. -/
structure DescribedBy (m : Fields) (v : Variable) : Prop where
  name : m.value? "name" = some (.string v.name)
  type : ∃ n, m.value? "type" = some (.object n) ∧ v.type.DescribedBy n
  value : (v.value = none ∧ m.present? "value" = none) ∨
    ∃ x n, v.value = some x ∧ m.present? "value" = some (.object n) ∧ x.DescribedBy n

theorem ofFields_eq_ok_iff {m : Fields} {v : Variable} : ofFields m = .ok v ↔ v.DescribedBy m := by
  simp only [ofFields, bind_eq_ok_iff, Fields.text_eq_ok_iff, Fields.object_eq_ok_iff,
    Expr.ofFields_eq_ok_iff]
  constructor
  · rintro ⟨name, hname, n, hn, type, htype, h⟩
    split at h
    · next hvalue =>
        obtain rfl := pure_eq_ok_iff.1 h
        exact ⟨hname, ⟨n, hn, htype⟩, .inl ⟨rfl, hvalue⟩⟩
    · next w hvalue =>
        obtain ⟨k, hk, h⟩ := bind_eq_ok_iff.1 h
        obtain ⟨x, hx, h⟩ := bind_eq_ok_iff.1 h
        obtain rfl := pure_eq_ok_iff.1 h
        rw [Fields.fieldsAt_eq_ok_iff.1 hk] at hvalue
        exact ⟨hname, ⟨n, hn, htype⟩, .inr ⟨x, k, rfl, hvalue, Expr.ofFields_eq_ok_iff.1 hx⟩⟩
  · obtain ⟨name, type, value⟩ := v
    rintro ⟨hname, ⟨n, hn, htype⟩, hvalue⟩
    refine ⟨name, hname, n, hn, type, htype, ?_⟩
    rcases hvalue with ⟨rfl, hvalue⟩ | ⟨x, k, rfl, hvalue, hx⟩
    · rw [hvalue]
      rfl
    · rw [hvalue]
      show (Expr.ofFields k >>= fun y => pure _) = _
      rw [Expr.ofFields_of_describedBy x hx]
      rfl

theorem describedBy_toFields (v : Variable) : v.DescribedBy v.toFields where
  name := rfl
  type := ⟨_, rfl, v.type.describedBy_toFields⟩
  value := by
    obtain ⟨name, type, value⟩ := v
    cases value with
    | none => exact .inl ⟨rfl, rfl⟩
    | some x => exact .inr ⟨x, _, rfl, rfl, x.describedBy_toFields⟩

theorem ofFields_toFields (v : Variable) : ofFields v.toFields = .ok v :=
  ofFields_eq_ok_iff.2 v.describedBy_toFields

theorem all_toFields {p : Json → Bool} (hp : Json.Lenient p) (v : Variable) :
    (Json.object v.toFields).all p := by
  refine hp.object (by simp [toFields]) ?_
  cases h : v.value <;> simp [toFields, h, hp.string, hp.null, Expr.all_toFields hp]

end Variable

/-! ## Ports -/

namespace Port

theorem write_eq_ok_iff {p : Port Variable} {n : Fields} :
    p.write = .ok n ↔ ∃ d v, p = .of d v ∧
      n = [("direction", .string d.name), ("variable", .object v.toFields)] := by
  obtain ⟨direction, signal⟩ := p
  cases direction <;> cases signal <;> simp [write, toFields, Port.of, bind, Except.bind, pure,
    Except.pure, eq_comm]

theorem read_eq_ok_iff {m : Fields} {p : Port Variable} :
    Port.read m = .ok p ↔ ∃ s d n v, m.value? "direction" = some (.string s) ∧
      Direction.ofText s = .ok d ∧ m.value? "variable" = some (.object n) ∧
      Variable.ofFields n = .ok v ∧ p = .of d v := by
  simp only [read, ofFields, bind_eq_ok_iff, pure_eq_ok_iff, Fields.text_eq_ok_iff,
    Fields.object_eq_ok_iff]
  constructor
  · rintro ⟨s, hs, d, hd, n, hn, v, hv, rfl⟩
    exact ⟨s, d, n, v, hs, hd, hn, hv, rfl⟩
  · rintro ⟨s, d, n, v, hs, hd, hn, hv, rfl⟩
    exact ⟨s, hs, d, hd, n, hn, v, hv, rfl⟩

theorem exists_write_iff {p : Port Variable} : (∃ n, p.write = .ok n) ↔ p.Complete := by
  simp only [write_eq_ok_iff]
  constructor
  · rintro ⟨_, d, v, rfl, -⟩
    exact ⟨rfl, rfl⟩
  · obtain ⟨direction, signal⟩ := p
    rintro ⟨hdirection, hsignal⟩
    obtain ⟨d, rfl⟩ := Option.isSome_iff_exists.1 hdirection
    obtain ⟨v, rfl⟩ := Option.isSome_iff_exists.1 hsignal
    exact ⟨_, d, v, rfl, rfl⟩

theorem read_of_write {p : Port Variable} {n : Fields} (h : p.write = .ok n) :
    Port.read n = .ok p := by
  obtain ⟨d, v, rfl, rfl⟩ := write_eq_ok_iff.1 h
  exact read_eq_ok_iff.2 ⟨d.name, d, _, v, rfl, d.ofText_name, rfl, v.ofFields_toFields, rfl⟩

/-- A port that was read lacks nothing. -/
theorem complete_of_read {m : Fields} {p : Port Variable} (h : Port.read m = .ok p) :
    p.Complete := by
  obtain ⟨s, d, n, v, -, -, -, -, rfl⟩ := read_eq_ok_iff.1 h
  exact ⟨rfl, rfl⟩

theorem all_of_write {p : Json → Bool} (hp : Json.Lenient p) {q : Port Variable} {n : Fields}
    (h : q.write = .ok n) : (Json.object n).all p := by
  obtain ⟨d, v, rfl, rfl⟩ := write_eq_ok_iff.1 h
  exact hp.object (by simp) (by simp [hp.string, Variable.all_toFields hp])

end Port

/-! ## Entities -/

namespace Entity

/-- Every port has both its parts. -/
def Complete (e : Entity) : Prop := ∀ p ∈ e.ports, p.Complete

instance (e : Entity) : Decidable e.Complete := inferInstanceAs (Decidable (∀ p ∈ e.ports, _))

theorem toFields_eq_ok_iff {e : Entity} {w : Fields} :
    e.toFields = .ok w ↔ ∃ ports, Json.ofList Port.write e.ports = .ok ports ∧
      w = [("name", .string e.name),
        ("generics", .array (e.generics.map fun g => .object g.toFields)), ("ports", ports)] := by
  simp only [toFields, bind_eq_ok_iff, pure_eq_ok_iff, @eq_comm _ w]

theorem ofFields_eq_ok_iff {m : Fields} {e : Entity} :
    ofFields m = .ok e ↔ m.value? "name" = some (.string e.name) ∧
      m.list Variable.ofFields "generics" = .ok e.generics ∧
      m.list Port.read "ports" = .ok e.ports := by
  obtain ⟨name, generics, ports⟩ := e
  simp only [ofFields, bind_eq_ok_iff, pure_eq_ok_iff, Fields.text_eq_ok_iff]
  constructor
  · rintro ⟨name, hname, generics, hgenerics, ports, hports, ⟨⟩⟩
    exact ⟨hname, hgenerics, hports⟩
  · rintro ⟨hname, hgenerics, hports⟩
    exact ⟨name, hname, generics, hgenerics, ports, hports, rfl⟩

theorem exists_toFields_iff {e : Entity} : (∃ w, e.toFields = .ok w) ↔ e.Complete := by
  have hports : (∃ v, Json.ofList Port.write e.ports = .ok v) ↔ e.Complete := by
    rw [exists_ofList_iff]
    simp only [Port.exists_write_iff, Complete]
  rw [← hports]
  constructor
  · rintro ⟨w, hw⟩
    obtain ⟨ports, hports, -⟩ := toFields_eq_ok_iff.1 hw
    exact ⟨ports, hports⟩
  · rintro ⟨ports, hports⟩
    exact ⟨_, toFields_eq_ok_iff.2 ⟨ports, hports, rfl⟩⟩

theorem ofFields_of_toFields {e : Entity} {w : Fields} (h : e.toFields = .ok w) :
    ofFields w = .ok e := by
  obtain ⟨ports, hports, rfl⟩ := toFields_eq_ok_iff.1 h
  refine ofFields_eq_ok_iff.2 ⟨rfl, ?_, ?_⟩
  · exact list_of_plain (fun g _ => g.ofFields_toFields) rfl
  · exact list_of_ofList (fun _ _ _ hn => Port.read_of_write hn) hports rfl

theorem complete_of_ofFields {m : Fields} {e : Entity} (h : ofFields m = .ok e) : e.Complete := by
  intro p hp
  obtain ⟨-, n, -, -, hn⟩ := exists_of_mem_list (ofFields_eq_ok_iff.1 h).2.2 hp
  exact Port.complete_of_read hn

theorem all_of_toFields {p : Json → Bool} (hp : Json.Lenient p) {e : Entity} {w : Fields}
    (h : e.toFields = .ok w) : (Json.object w).all p := by
  obtain ⟨ports, hports, rfl⟩ := toFields_eq_ok_iff.1 h
  have hgenerics := all_ofList hp (ofList_plain e.generics) fun g _ n hn =>
    Except.ok.inj hn ▸ Variable.all_toFields hp g
  have hports := all_ofList hp hports fun _ _ _ hn => Port.all_of_write hp hn
  exact hp.object (by simp) (by simp [hp.string, hgenerics, hports])

end Entity

end HdlInterface
