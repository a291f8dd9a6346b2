import HdlInterface.Proofs.Design.Arrange
import HdlInterface.Proofs.Design.Renaming
import HdlInterface.Proofs.Interface.Order

/-!
# What arranging does

A list and its arrangement, which holds the same things ordered by key, those of one key in the
order they had; a design and its arrangement, which is the design itself but for the lists of its
interfaces. Arranging a design gives its arrangement, and there is no other (`Design.arrangement`).
-/

namespace HdlInterface

/-! ## Lists -/

/-- The second list is the first one ordered by key: what has no key comes first, and then names are
compared code point by code point. What has the same key, or none, keeps its order. -/
structure IsArrangement {α : Type} (key : α → Option String) (xs ys : List α) : Prop where
  perm : ys.Perm xs
  ordered : ys.Pairwise fun x y => ∀ m, key x = some m → ∃ n, key y = some n ∧ m ≤ n
  stable : ∀ k, ys.filter (key · == k) = xs.filter (key · == k)

section Lists

variable {α : Type} {key : α → Option String} {xs ys : List α}

theorem nameLE_iff {a b : Option String} :
    nameLE a b = true ↔ ∀ m, a = some m → ∃ n, b = some n ∧ m ≤ n := by
  cases a <;> cases b <;> simp [nameLE]

theorem isArrangement_iff : IsArrangement key xs ys ↔ ys = arrangedBy key xs := by
  constructor
  · rintro ⟨-, hordered, hstable⟩
    -- a list in order is determined by what it holds under each key
    refine eq_of_filter_eq (hordered.imp nameLE_iff.2) (pairwise_arrangedBy xs)
      fun k => ?_
    rw [hstable, filter_arrangedBy]
  · rintro rfl
    have hordered : (arrangedBy key xs).Pairwise fun x y => nameLE (key x) (key y) = true :=
      pairwise_arrangedBy xs
    exact ⟨perm_arrangedBy xs, hordered.imp nameLE_iff.1, filter_arrangedBy xs⟩

/-- The first thing with a key is still the first one. -/
theorem find?_arrangedBy (key : α → Option String) (xs : List α) (k : Option String) :
    (arrangedBy key xs).find? (key · == k) = xs.find? (key · == k) := by
  rw [← List.head?_filter, filter_arrangedBy, List.head?_filter]

end Lists

/-! ## Interfaces -/

namespace Entity

structure IsArrangement (e e' : Entity) : Prop where
  name : e'.name = e.name
  generics : HdlInterface.IsArrangement (fun g => some g.name) e.generics e'.generics
  ports : HdlInterface.IsArrangement Port.name? e.ports e'.ports

/-- The same ports and the same generics are found in both, whatever the name. -/
def FindsAlike (e e' : Entity) : Prop :=
  ∀ n, e'.port? n = e.port? n ∧ e'.generic? n = e.generic? n

theorem isArrangement_iff {e e' : Entity} : e.IsArrangement e' ↔ e' = e.arrange := by
  rw [arrange_eq]
  constructor
  · rintro ⟨hname, hgenerics, hports⟩
    obtain ⟨name, generics, ports⟩ := e'
    obtain rfl := hname
    obtain rfl := HdlInterface.isArrangement_iff.1 hgenerics
    obtain rfl := HdlInterface.isArrangement_iff.1 hports
    rfl
  · rintro rfl
    exact ⟨rfl, HdlInterface.isArrangement_iff.2 rfl, HdlInterface.isArrangement_iff.2 rfl⟩

theorem port?_arrange (e : Entity) (n : String) : e.arrange.port? n = e.port? n := by
  unfold port?
  exact find?_arrangedBy Port.name? e.ports (some n)

theorem generic?_arrange (e : Entity) (n : String) : e.arrange.generic? n = e.generic? n := by
  have hfound := find?_arrangedBy (fun g : Variable => some g.name) e.generics (some n)
  simp only [Option.some_beq_some] at hfound
  exact hfound

theorem findsAlike_arrange (e : Entity) : e.FindsAlike e.arrange :=
  fun n => ⟨e.port?_arrange n, e.generic?_arrange n⟩

theorem complete_arrange_iff {e : Entity} : e.arrange.Complete ↔ e.Complete := by
  simp only [Complete, arrange, List.mem_mergeSort]

end Entity

/-! ## Designs -/

structure PackageHeader.IsArrangement (h h' : PackageHeader) : Prop where
  name : h'.name = h.name
  components : List.Forall₂ Entity.IsArrangement h.components h'.components
  functions : h'.functions = h.functions
  extra : h'.extra = h.extra

theorem PackageHeader.isArrangement_iff {h h' : PackageHeader} :
    h.IsArrangement h' ↔ h' = h.arrange := by
  have hcomponents : List.Forall₂ Entity.IsArrangement h.components h'.components ↔
      h'.components = h.components.map Entity.arrange :=
    forall₂_iff_eq_map fun _ _ => Entity.isArrangement_iff
  obtain ⟨name, components, functions, extra⟩ := h'
  constructor
  · rintro ⟨rfl, h, rfl, rfl⟩
    obtain rfl := hcomponents.1 h
    rfl
  · rintro ⟨⟩
    exact ⟨rfl, hcomponents.2 rfl, rfl, rfl⟩

namespace Design

structure IsArrangement (d d' : Design) : Prop where
  imports : d'.imports = d.imports
  headers : List.Forall₂ PackageHeader.IsArrangement d.headers d'.headers
  entities : List.Forall₂ Entity.IsArrangement d.entities d'.entities
  bodies : d'.bodies = d.bodies
  architectures : d'.architectures = d.architectures
  extra : d'.extra = d.extra

theorem isArrangement_iff {d d' : Design} : d.IsArrangement d' ↔ d' = d.arrange := by
  have hheaders : List.Forall₂ PackageHeader.IsArrangement d.headers d'.headers ↔
      d'.headers = d.headers.map PackageHeader.arrange :=
    forall₂_iff_eq_map fun _ _ => PackageHeader.isArrangement_iff
  have hentities : List.Forall₂ Entity.IsArrangement d.entities d'.entities ↔
      d'.entities = d.entities.map Entity.arrange :=
    forall₂_iff_eq_map fun _ _ => Entity.isArrangement_iff
  obtain ⟨imports, headers, entities, bodies, architectures, extra⟩ := d'
  constructor
  · rintro ⟨rfl, hh, he, rfl, rfl, rfl⟩
    obtain rfl := hheaders.1 hh
    obtain rfl := hentities.1 he
    rfl
  · rintro ⟨⟩
    exact ⟨rfl, hheaders.2 rfl, hentities.2 rfl, rfl, rfl, rfl⟩

theorem entity?_arrange (d : Design) (n : String) :
    d.arrange.entity? n = (d.entity? n).map Entity.arrange := by
  rw [entity?, arrange_eq, List.find?_map]
  rfl

theorem exists_toFields_arrange_iff {d : Design} :
    (∃ w, d.arrange.toFields = .ok w) ↔ ∃ w, d.toFields = .ok w := by
  rw [exists_toFields_iff, exists_toFields_iff, arrange]
  simp only [List.forall_mem_map, Entity.complete_arrange_iff]

/-- Arranging a design gives its arrangement and nothing else. To do it again changes nothing. The
ports are as many as before, each name finds the generic or the port that it found, and a design
that could be written still can, and no other. -/
theorem arrangement (d : Design) :
    (∀ d', d.IsArrangement d' ↔ d' = d.arrange) ∧
      d.arrange.arrange = d.arrange ∧
      d.arrange.portCount = d.portCount ∧
      (∀ unit n, ((d.arrange.entity? unit).bind fun e => e.port? n) =
          ((d.entity? unit).bind fun e => e.port? n) ∧
        ((d.arrange.entity? unit).bind fun e => e.generic? n) =
          (d.entity? unit).bind fun e => e.generic? n) ∧
      List.Forall₂ Entity.FindsAlike d.entities d.arrange.entities ∧
      List.Forall₂ (fun h h' => List.Forall₂ Entity.FindsAlike h.components h'.components)
        d.headers d.arrange.headers ∧
      ((∃ w, d.arrange.toFields = .ok w) ↔ ∃ w, d.toFields = .ok w) := by
  have hfound : ∀ es : List Entity, List.Forall₂ Entity.FindsAlike es (es.map Entity.arrange) :=
    fun es => List.forall₂_map_right_iff.2 (List.forall₂_same.2 fun e _ => e.findsAlike_arrange)
  refine ⟨fun d' => isArrangement_iff, d.arrange_arrange, d.portCount_arrange, fun unit n => ?_,
    hfound d.entities, ?_, exists_toFields_arrange_iff⟩
  · rw [entity?_arrange]
    cases d.entity? unit with
    | none => exact ⟨rfl, rfl⟩
    | some e => exact e.findsAlike_arrange n
  · exact List.forall₂_map_right_iff.2 (List.forall₂_same.2 fun h _ => hfound h.components)

end Design

end HdlInterface
