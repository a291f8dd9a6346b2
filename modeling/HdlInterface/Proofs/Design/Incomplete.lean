import HdlInterface.Proofs.Design.Arrangement
import HdlInterface.Proofs.Design.Reachable
import HdlInterface.Proofs.Design.Rewriting
import HdlInterface.Proofs.Document.Failure

/-!
# Designs that cannot be written

Whether a design can be written is up to the parts of its ports alone. The ports are met in one
order, and the first of them that lacks a part is reported
(`Design.toFields_reports_first_incomplete`). No such port is ever read, and none comes about by
renaming or arranging.
-/

namespace HdlInterface

/-! ## Ports -/

namespace Port

/-- Whether the direction and the signal are there. -/
def parts (p : Port Variable) : Bool × Bool := (p.direction.isSome, p.signal.isSome)

/-- The part of that name is missing; of two, it is the direction. -/
inductive Lacks : Port Variable → String → Prop
  | direction (signal : Option Variable) : Lacks ⟨none, signal⟩ "direction"
  | signal (direction : Direction) : Lacks ⟨some direction, none⟩ "variable"

/-- The name of the missing part. -/
def missing? : Bool × Bool → Option String
  | (false, _) => some "direction"
  | (true, false) => some "variable"
  | (true, true) => none

variable {p : Port Variable}

theorem missing?_eq_none_iff : missing? p.parts = none ↔ p.Complete := by
  obtain ⟨direction, signal⟩ := p
  cases direction <;> cases signal <;> simp [missing?, parts, Complete]

theorem missing?_eq_some_iff {key : String} : missing? p.parts = some key ↔ p.Lacks key := by
  obtain ⟨direction, signal⟩ := p
  constructor
  · intro h
    cases direction with
    | none =>
        obtain rfl := Option.some.inj h
        exact .direction signal
    | some direction =>
        cases signal with
        | none =>
            obtain rfl := Option.some.inj h
            exact .signal direction
        | some signal => cases h
  · rintro (_ | _) <;> rfl

theorem failure?_write (p : Port Variable) :
    failure? p.write = (missing? p.parts).map .missingField := by
  obtain ⟨direction, signal⟩ := p
  cases direction <;> cases signal <;> rfl

end Port

/-! ## Interfaces and units -/

/-- The error of the first port that lacks a part. -/
def failureOf? (ports : List (Port Variable)) : Option DocumentError :=
  ports.findSome? fun p => (Port.missing? p.parts).map .missingField

theorem Entity.failure?_toFields (e : Entity) : failure? e.toFields = failureOf? e.ports := by
  rw [toFields, failure?_bind_pure, failure?_ofList]
  simp only [Port.failure?_write]
  rfl

theorem failure?_ofEntities (es : List Entity) :
    failure? (Json.ofKeyed Entity.toFields Entity.name es) =
      failureOf? (es.flatMap Entity.ports) := by
  rw [failure?_ofKeyed, failureOf?, findSome?_flatMap]
  simp only [Entity.failure?_toFields]
  rfl

theorem PackageHeader.failure?_toFields (h : PackageHeader) :
    failure? h.toFields = failureOf? (h.components.flatMap Entity.ports) := by
  rw [toFields, failure?_bind_pure, failure?_ofEntities]

namespace Design

/-! ## Designs -/

/-- The ports of the components, header by header, and then those of the entities. -/
def ports (d : Design) : List (Port Variable) :=
  (d.headers.flatMap fun h => h.components.flatMap Entity.ports) ++ d.entities.flatMap Entity.ports

theorem failure?_toFields (d : Design) : failure? d.toFields = failureOf? d.ports := by
  have hheaders : failure? (Json.ofKeyed PackageHeader.toFields PackageHeader.name d.headers) =
      failureOf? (d.headers.flatMap fun h => h.components.flatMap Entity.ports) := by
    rw [failure?_ofKeyed, failureOf?, findSome?_flatMap]
    simp only [PackageHeader.failure?_toFields]
    rfl
  have hbodies : failure? (Json.ofKeyed (fun b : PackageBody => .ok b.toFields) PackageBody.name
      d.bodies) = none := by
    rw [failure?_ofKeyed, List.findSome?_eq_none_iff]
    exact fun _ _ => rfl
  rw [toFields, failure?_bind fun headers => failure?_bind fun entities =>
    (failure?_bind_pure ..).trans hbodies, hheaders, failure?_ofEntities, Option.or_none, ports,
    failureOf?, failureOf?, failureOf?, List.findSome?_append]

theorem toFields_eq_error_iff {d : Design} {error : DocumentError} : d.toFields = .error error ↔
    ∃ before p after key, d.ports = before ++ p :: after ∧ (∀ q ∈ before, q.Complete) ∧
      p.Lacks key ∧ error = .missingField key := by
  rw [← failure?_eq_some_iff, failure?_toFields, failureOf?, List.findSome?_eq_some_iff]
  simp only [Option.map_eq_none_iff, Port.missing?_eq_none_iff, Option.map_eq_some_iff,
    Port.missing?_eq_some_iff]
  constructor
  · rintro ⟨before, p, after, hports, ⟨key, hkey, rfl⟩, hbefore⟩
    exact ⟨before, p, after, key, hports, hbefore, hkey, rfl⟩
  · rintro ⟨before, p, after, key, hports, hbefore, hkey, rfl⟩
    exact ⟨before, p, after, hports, ⟨key, hkey, rfl⟩, hbefore⟩

theorem exists_error_iff {d : Design} :
    (∃ error, d.toFields = .error error) ↔ ∃ p ∈ d.ports, ¬p.Complete := by
  simp only [← failure?_eq_some_iff, ← Option.isSome_iff_exists, ← Option.ne_none_iff_isSome,
    failure?_toFields, failureOf?, ne_eq, List.findSome?_eq_none_iff, Option.map_eq_none_iff,
    Port.missing?_eq_none_iff, not_forall, exists_prop]

/-- Of each port, it only matters which of its parts are there. -/
theorem failure?_congr {d e : Design} (h : d.ports.map Port.parts = e.ports.map Port.parts) :
    failure? d.toFields = failure? e.toFields := by
  have hparts : ∀ ports : List (Port Variable), failureOf? ports =
      (ports.map Port.parts).findSome? fun parts => (Port.missing? parts).map .missingField :=
    fun ports => by rw [List.findSome?_map]; rfl
  rw [failure?_toFields, failure?_toFields, hparts, h, ← hparts]

/-! ## Designs that are read -/

theorem exists_toFields_of_ofFields {m : Fields} {d : Design} (h : ofFields m = .ok d) :
    ∃ w, d.toFields = .ok w := by
  obtain ⟨-, hheaders, hentities, -⟩ := ofFields_eq_ok_iff.1 h
  refine exists_toFields_iff.2 ⟨fun u hu c hc => ?_, fun e he => ?_⟩
  · obtain ⟨-, n, -, -, hn⟩ := exists_of_mem_keyed (Fields.read_of_mem_optional hheaders hu) hu
    obtain ⟨-, k, -, -, hk⟩ := exists_of_mem_keyed (PackageHeader.ofFields_eq_ok_iff.1 hn).2.1 hc
    exact Entity.complete_of_ofFields hk
  · obtain ⟨-, n, -, -, hn⟩ := exists_of_mem_keyed hentities he
    exact Entity.complete_of_ofFields hn

theorem exists_toFields_mapNames {d : Design} (f : String → String)
    (h : ∃ w, d.toFields = .ok w) : ∃ w, (d.mapNames f).toFields = .ok w := by
  rw [exists_toFields_iff] at h ⊢
  simp only [mapNames, PackageHeader.mapNames, List.forall_mem_map]
  exact ⟨fun u hu c hc => (h.1 u hu c hc).mapNames, fun e he => (h.2 e he).mapNames⟩

end Design

/-- A change that rewrites the design it finds, whatever that is. -/
inductive Change.Rewrites : Change → Prop
  | canonical (l : Language) : Rewrites (.canonical l)
  | arrange : Rewrites .arrange

namespace Design

theorem exists_toFields_of_attempt {d e : Design} {c : Change} (hc : c.Rewrites)
    (hd : ∃ w, d.toFields = .ok w) (h : d.attempt c = .ok e) : ∃ w, e.toFields = .ok w := by
  cases hc with
  | canonical l =>
      obtain ⟨-, rfl⟩ := canonical_eq_ok_iff.1 h
      exact exists_toFields_mapNames l.canonical hd
  | arrange =>
      obtain rfl := Except.ok.inj h
      exact exists_toFields_arrange_iff.2 hd

theorem exists_toFields_foldl_after {d : Design} (hd : ∃ w, d.toFields = .ok w)
    {changes : List Change} (hchanges : ∀ c ∈ changes, c.Rewrites) :
    ∃ w, (changes.foldl after d).toFields = .ok w := by
  induction changes generalizing d with
  | nil => exact hd
  | cons c changes ih =>
      rw [List.forall_mem_cons] at hchanges
      have hafter : ∃ w, (d.after c).toFields = .ok w :=
        after_of_attempt (P := fun d => ∃ w, d.toFields = .ok w) hd fun _ =>
          exists_toFields_of_attempt hchanges.1 hd
      exact ih hafter hchanges.2

/-- A design cannot be written exactly if a port lacks a part. The first such port is reported, by
the name of what it lacks, and nothing else of the design has a say in that. A design that was read
can be written, also after names were made canonical and interfaces arranged any number of times. -/
theorem toFields_reports_first_incomplete (d : Design) :
    ((∃ error, d.toFields = .error error) ↔ ∃ p ∈ d.ports, ¬p.Complete) ∧
      (∀ error, d.toFields = .error error ↔
        ∃ before p after key, d.ports = before ++ p :: after ∧ (∀ q ∈ before, q.Complete) ∧
          p.Lacks key ∧ error = .missingField key) ∧
      (∀ e : Design, d.ports.map Port.parts = e.ports.map Port.parts →
        ∀ error, d.toFields = .error error ↔ e.toFields = .error error) ∧
      ∀ m, ofFields m = .ok d → ∀ changes : List Change, (∀ c ∈ changes, c.Rewrites) →
        ∃ w, (changes.foldl after d).toFields = .ok w := by
  refine ⟨exists_error_iff, fun error => toFields_eq_error_iff, fun e h error => ?_,
    fun m hread changes => exists_toFields_foldl_after (exists_toFields_of_ofFields hread)⟩
  rw [← failure?_eq_some_iff, failure?_congr h, failure?_eq_some_iff]

/-- A design whose only entity has a port without parts, with such components in a package. -/
def draft (components : List Entity) : Design :=
  { empty with
    headers := [⟨"util", components, [], []⟩]
    entities := [⟨"top", [], [.empty]⟩] }

/-- Components come before entities, and it does not matter that one is declared twice. -/
theorem draft_reports_first_incomplete :
    let clock : Port Variable := .of .input ⟨"clk", .id "bit", none⟩
    let half : Port Variable := ⟨some .output, none⟩
    (draft []).toFields = .error (.missingField "direction") ∧
      (draft [⟨"reg", [], [clock, half]⟩]).toFields = .error (.missingField "variable") ∧
      (draft [⟨"reg", [], [clock]⟩, ⟨"reg", [], [half]⟩]).toFields =
        .error (.missingField "variable") ∧
      ∃ w, ([Change.arrange, .canonical .vhdl].foldl after gate).toFields = .ok w := by
  intro clock half
  have hhalf : (draft [⟨"reg", [], [clock, half]⟩]).toFields =
      .error (.missingField "variable") := by
    refine ((toFields_reports_first_incomplete _).2.1 _).2
      ⟨[clock], half, [.empty], "variable", rfl, ?_, .signal .output, rfl⟩
    decide
  refine ⟨?_, hhalf, ?_, ?_⟩
  · exact ((toFields_reports_first_incomplete _).2.1 _).2
      ⟨[], .empty, [], "direction", rfl, nofun, .direction none, rfl⟩
  · exact ((toFields_reports_first_incomplete _).2.2.1 _ rfl _).1 hhalf
  · have hread : ofFields (gateFields "IN") = .ok gate := ofFields_gateFields rfl
    refine (toFields_reports_first_incomplete gate).2.2.2 _ hread _ ?_
    rw [List.forall_mem_cons, List.forall_mem_singleton]
    exact ⟨.arrange, .canonical .vhdl⟩

end Design

end HdlInterface
