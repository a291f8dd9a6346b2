import HdlInterface.Design.Canonical
import HdlInterface.Proofs.Unit.Equality

/-!
# Equality of designs

Designs are equal if they agree in everything but the order of fields that are kept as they are.
That is an equivalence among designs in which no object that is kept repeats a key, and every
operation takes equal designs to equal designs, or fails in the same way on both.
-/

namespace HdlInterface

namespace Design

structure Same (d e : Design) : Prop where
  imports : List.Forall₂ Json.Same d.imports e.imports
  headers : List.Forall₂ PackageHeader.Same d.headers e.headers
  entities : d.entities = e.entities
  bodies : List.Forall₂ PackageBody.Same d.bodies e.bodies
  architectures : List.Forall₂ Architecture.Same d.architectures e.architectures
  extra : d.extra.Same e.extra

variable {c d e : Design}

theorem same_def : d.Same e ↔ d.WellFormed ∧ e.WellFormed ∧ d.same e = true := by
  have himports : List.Forall₂ Json.Same d.imports e.imports ↔ _ :=
    forall₂_iff_sameList fun _ _ => Iff.rfl
  have hheaders : List.Forall₂ PackageHeader.Same d.headers e.headers ↔ _ :=
    forall₂_iff_sameList fun _ _ => PackageHeader.same_def
  have hbodies : List.Forall₂ PackageBody.Same d.bodies e.bodies ↔ _ :=
    forall₂_iff_sameList fun _ _ => PackageBody.same_def
  have harchitectures : List.Forall₂ Architecture.Same d.architectures e.architectures ↔ _ :=
    forall₂_iff_sameList fun _ _ => Architecture.same_def
  simp only [WellFormed, forall_raw_iff, same, Bool.and_eq_true, beq_iff_eq]
  constructor
  · rintro ⟨hi, hh, hentities, hb, ha, hextra⟩
    obtain ⟨hi, hi', hiSame⟩ := himports.1 hi
    obtain ⟨hh, hh', hhSame⟩ := hheaders.1 hh
    obtain ⟨hb, hb', hbSame⟩ := hbodies.1 hb
    obtain ⟨ha, ha', haSame⟩ := harchitectures.1 ha
    exact ⟨⟨hextra.1, hi, hh, hb, ha⟩, ⟨hextra.2.1, hi', hh', hb', ha'⟩,
      ⟨⟨⟨⟨hiSame, hhSame⟩, hentities⟩, hbSame⟩, haSame⟩, hextra.2.2⟩
  · rintro ⟨⟨hx, hi, hh, hb, ha⟩, ⟨hx', hi', hh', hb', ha'⟩,
      ⟨⟨⟨⟨hiSame, hhSame⟩, hentities⟩, hbSame⟩, haSame⟩, hextra⟩
    exact ⟨himports.2 ⟨hi, hi', hiSame⟩, hheaders.2 ⟨hh, hh', hhSame⟩, hentities,
      hbodies.2 ⟨hb, hb', hbSame⟩, harchitectures.2 ⟨ha, ha', haSame⟩, hx, hx', hextra⟩

namespace Same

theorem same (h : d.Same e) : d.same e = true := (same_def.1 h).2.2

theorem symm (h : d.Same e) : e.Same d :=
  ⟨forall₂_symm h.imports fun _ _ => .symm, forall₂_symm h.headers fun _ _ => .symm,
    h.entities.symm, forall₂_symm h.bodies fun _ _ => .symm,
    forall₂_symm h.architectures fun _ _ => .symm, h.extra.symm⟩

theorem trans (h : c.Same d) (h' : d.Same e) : c.Same e :=
  ⟨forall₂_trans h.imports h'.imports fun _ _ _ => .trans,
    forall₂_trans h.headers h'.headers fun _ _ _ => .trans, h.entities.trans h'.entities,
    forall₂_trans h.bodies h'.bodies fun _ _ _ => .trans,
    forall₂_trans h.architectures h'.architectures fun _ _ _ => .trans, h.extra.trans h'.extra⟩

end Same

/-! ## Writing -/

theorem toFields_alike (h : d.Same e) : Alike Eq Fields.Same d.toFields e.toFields := by
  have hentities : List.Forall₂ Eq d.entities e.entities := List.forall₂_eq_eq_eq ▸ h.entities
  refine (Json.ofKeyed_alike h.headers (fun _ _ hhk => hhk.name)
    fun _ _ => PackageHeader.toFields_alike).bind fun headers headers' hheaders => ?_
  refine (Json.ofKeyed_alike hentities (fun _ _ hab => congrArg Entity.name hab)
    fun a _ hab => hab ▸ a.toFields_alike).bind fun entities entities' hentities => ?_
  refine (Json.ofKeyed_alike h.bodies (fun _ _ hbc => hbc.name)
    fun _ _ hbc => .ok (PackageBody.toFields_same hbc)).bind fun bodies bodies' hbodies => .ok ?_
  have harchitectures : (Json.array (d.architectures.map fun a => .object a.toFields)).Same
      (.array (e.architectures.map fun a => .object a.toFields)) := by
    rw [Json.same_array_iff, List.forall₂_map_left_iff, List.forall₂_map_right_iff]
    exact h.architectures.imp fun _ _ => Architecture.toFields_same
  have hbase : Fields.Same
      [("imports", .array d.imports), ("packageHeaders", headers), ("entities", entities),
        ("packages", bodies),
        ("architectures", .array (d.architectures.map fun a => .object a.toFields))]
      [("imports", .array e.imports), ("packageHeaders", headers'), ("entities", entities'),
        ("packages", bodies'),
        ("architectures", .array (e.architectures.map fun a => .object a.toFields))] :=
    Fields.same_of_forall₂ (by decide : sections.Nodup)
      (.cons ⟨rfl, Json.same_array_iff.2 h.imports⟩ (.cons ⟨rfl, hheaders⟩
        (.cons ⟨rfl, hentities⟩ (.cons ⟨rfl, hbodies⟩ (.cons ⟨rfl, harchitectures⟩ .nil)))))
  exact hbase.assignAll h.extra

/-! ## Names -/

theorem Same.mapNames (h : d.Same e) (f : String → String) :
    (d.mapNames f).Same (e.mapNames f) := by
  refine ⟨?_, ?_, congrArg (List.map _) h.entities, ?_, ?_, h.extra⟩
  all_goals simp only [Design.mapNames, List.forall₂_map_left_iff, List.forall₂_map_right_iff]
  · exact h.imports.imp fun _ _ hvw => Json.mapReference_same hvw f
  · exact h.headers.imp fun _ _ hhk => hhk.mapNames f
  · exact h.bodies.imp fun _ _ hbc => hbc.mapNames f
  · exact h.architectures.imp fun _ _ hab => hab.mapNames f

/-- A search for a repeated name looks at the names and at what it finds inside. -/
theorem firstRepeated_eq_of_forall₂ {α : Type} {R : α → α → Prop} {inner : α → Option String}
    {name : α → String} {xs ys : List α} (h : List.Forall₂ R xs ys)
    (hinner : ∀ a b, R a b → inner a = inner b) (hname : ∀ a b, R a b → name a = name b)
    (seen : List String) : firstRepeated inner name seen xs = firstRepeated inner name seen ys := by
  induction h generalizing seen with
  | nil => rfl
  | cons hab _ ih =>
    rw [firstRepeated, firstRepeated, hinner _ _ hab, hname _ _ hab, ih]

theorem firstRepeat_eq_of_same (h : d.Same e) : d.firstRepeat = e.firstRepeat := by
  have hheaders : firstRepeated PackageHeader.firstRepeat PackageHeader.name [] d.headers =
      firstRepeated PackageHeader.firstRepeat PackageHeader.name [] e.headers :=
    firstRepeated_eq_of_forall₂ h.headers
      (fun _ _ hhk => by rw [PackageHeader.firstRepeat, hhk.components, PackageHeader.firstRepeat])
      (fun _ _ hhk => hhk.name) []
  have hbodies : d.bodies.map PackageBody.name = e.bodies.map PackageBody.name :=
    map_eq_map_of_forall₂ h.bodies fun _ _ hbc => hbc.name
  rw [firstRepeat, firstRepeat, hheaders, h.entities, hbodies]

theorem canonical_alike (h : d.Same e) (l : Language) :
    Alike Eq Same (d.canonical l) (e.canonical l) := by
  have hmapped := h.mapNames l.canonical
  rw [canonical, canonical, unlessRepeated, unlessRepeated, firstRepeat_eq_of_same hmapped]
  split
  · exact .error rfl
  · exact .ok hmapped

theorem Same.arrange (h : d.Same e) : d.arrange.Same e.arrange := by
  refine ⟨h.imports, ?_, congrArg (List.map _) h.entities, h.bodies, h.architectures, h.extra⟩
  simp only [Design.arrange, List.forall₂_map_left_iff, List.forall₂_map_right_iff]
  exact h.headers.imp fun _ _ hhk =>
    ⟨hhk.name, congrArg (List.map _) hhk.components, hhk.functions, hhk.extra⟩

/-! ## Lookup -/

theorem find?_rel {α β : Type} {R : α → β → Prop} {p : α → Bool} {q : β → Bool} {xs : List α}
    {ys : List β} (h : List.Forall₂ R xs ys) (hpq : ∀ a b, R a b → p a = q b) :
    Option.Rel R (xs.find? p) (ys.find? q) := by
  induction h with
  | nil => exact .none
  | @cons a b xs ys hab _ ih =>
    rw [List.find?_cons, List.find?_cons, hpq a b hab]
    cases q b with
    | true => exact .some hab
    | false => exact ih

theorem header?_rel (h : d.Same e) (name : String) :
    Option.Rel PackageHeader.Same (d.header? name) (e.header? name) :=
  find?_rel h.headers fun _ _ hhk => by rw [hhk.name]

theorem entity?_eq_of_same (h : d.Same e) (name : String) : d.entity? name = e.entity? name := by
  rw [entity?, entity?, h.entities]

theorem body?_rel (h : d.Same e) (name : String) :
    Option.Rel PackageBody.Same (d.body? name) (e.body? name) :=
  find?_rel h.bodies fun _ _ hbc => by rw [hbc.name]

end Design

end HdlInterface
