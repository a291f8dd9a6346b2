import HdlInterface.Proofs.Json.Equivalence

/-!
# Readers of equal fields

What is read from two objects that hold equal values under the same keys is related, and if it
cannot be read, it is for the same reason. The fields are only looked up by key, so their order has
no part in it; the entries of a section are read in order, so there the order has to be the same.
-/

namespace HdlInterface

/-! ## Outcomes -/

/-- Both computations end with related results, or fail with related errors. -/
inductive Alike {ε α β : Type} (E : ε → ε → Prop) (R : α → β → Prop) :
    Except ε α → Except ε β → Prop
  | ok {a : α} {b : β} (h : R a b) : Alike E R (.ok a) (.ok b)
  | error {e f : ε} (h : E e f) : Alike E R (.error e) (.error f)

namespace Alike

variable {ε α β γ δ : Type} {E : ε → ε → Prop} {R : α → β → Prop} {S : γ → δ → Prop}
  {x : Except ε α} {y : Except ε β} {f : α → Except ε γ} {g : β → Except ε δ}

theorem imp {R' : α → β → Prop} (h : Alike E R x y) (hR : ∀ a b, R a b → R' a b) :
    Alike E R' x y := by
  cases h with
  | ok h => exact .ok (hR _ _ h)
  | error h => exact .error h

theorem bind (h : Alike E R x y) (hfg : ∀ a b, R a b → Alike E S (f a) (g b)) :
    Alike E S (x >>= f) (y >>= g) := by
  cases h with
  | ok h => exact hfg _ _ h
  | error h => exact .error h

/-- The result of the first computation is known to be its result. -/
theorem with_left (h : Alike E R x y) : Alike E (fun a b => x = .ok a ∧ R a b) x y := by
  cases h with
  | ok h => exact .ok ⟨rfl, h⟩
  | error h => exact .error h

theorem mapM {xs : List α} {ys : List β} (h : List.Forall₂ R xs ys)
    (hfg : ∀ a b, R a b → Alike E S (f a) (g b)) :
    Alike E (List.Forall₂ S) (xs.mapM f) (ys.mapM g) := by
  induction h with
  | nil => exact .ok .nil
  | cons hab _ ih =>
    rw [List.mapM_cons, List.mapM_cons]
    exact (hfg _ _ hab).bind fun _ _ hcd => ih.bind fun _ _ hrest => .ok (.cons hcd hrest)

end Alike

/-- Errors of one kind that tell the same; an expression that cannot be made out is told up to the
order of its fields. -/
inductive DocumentError.Same : DocumentError → DocumentError → Prop
  | refl (e : DocumentError) : Same e e
  | unparsable {m n : Fields} (h : m.Same n) : Same (.unparsable m) (.unparsable n)

/-- Two readers end with related results, or fail for the same reason. -/
abbrev ReadAlike {α β : Type} (R : α → β → Prop) :
    Except DocumentError α → Except DocumentError β → Prop :=
  Alike DocumentError.Same R

theorem Alike.same_error {α β : Type} {R : α → β → Prop} (e : DocumentError) :
    Alike DocumentError.Same R (.error e) (.error e) :=
  .error (.refl e)

theorem Alike.of_eq {α : Type} (x : Except DocumentError α) : Alike DocumentError.Same Eq x x := by
  cases x with
  | ok a => exact .ok rfl
  | error e => exact .same_error e

/-! ## Objects that hold equal values -/

/-- Both values are objects that are related, or both are equal and no objects. -/
inductive Json.Lift (R : Fields → Fields → Prop) : Json → Json → Prop
  | object {m n : Fields} (h : R m n) : Lift R (.object m) (.object n)
  | other {v w : Json} (hv : ∀ m, v ≠ .object m) (hw : ∀ m, w ≠ .object m) (h : v.Same w) :
      Lift R v w

namespace Fields

/-- The same keys in the same order, with related objects under them. -/
def SameEntries (R : Fields → Fields → Prop) (m n : Fields) : Prop :=
  List.Forall₂ (fun f g : String × Json => f.1 = g.1 ∧ f.2.Lift R g.2) m n

end Fields

namespace Json

variable {R : Fields → Fields → Prop} {v w : Json} {key : String}

theorem Same.lift (h : v.Same w) : v.Lift Fields.Same w := by
  cases h.parts with
  | object hmn => exact .object hmn
  | _ => exact .other nofun nofun h

theorem fieldsAt_alike (h : v.Lift R w) : ReadAlike R (v.fieldsAt key) (w.fieldsAt key) := by
  have hother : ∀ u : Json, (∀ m, u ≠ object m) →
      u.fieldsAt key = .error (.unexpectedType key .object) := fun u hu => by
    cases u with
    | object m => exact absurd rfl (hu m)
    | _ => rfl
  cases h with
  | object h => exact .ok h
  | other hv hw =>
    rw [hother v hv, hother w hw]
    exact .same_error _

theorem textAt_alike (h : v.Same w) (shape : Shape) :
    ReadAlike Eq (v.textAt key shape) (w.textAt key shape) := by
  cases h.parts with
  | string s => exact .ok rfl
  | _ => exact .same_error _

end Json

/-! ## Single fields -/

namespace Fields

variable {m n : Fields} {key : String}

theorem require_alike {R : Json → Json → Prop}
    (h : Option.Rel R (m.value? key) (n.value? key)) :
    ReadAlike R (m.require key) (n.require key) := by
  unfold require
  generalize m.value? key = x at h ⊢
  generalize n.value? key = y at h ⊢
  cases h with
  | none => exact .same_error _
  | some h => exact .ok h

theorem text_alike (h : Option.Rel Json.Same (m.value? key) (n.value? key)) :
    ReadAlike Eq (m.text key) (n.text key) :=
  (require_alike h).bind fun _ _ hvw => Json.textAt_alike hvw .string

theorem object_alike {R : Fields → Fields → Prop}
    (h : Option.Rel (Json.Lift R) (m.value? key) (n.value? key)) :
    ReadAlike R (m.object key) (n.object key) :=
  (require_alike h).bind fun _ _ => Json.fieldsAt_alike

/-- Equal objects hold equal objects. -/
theorem Same.object_alike (h : m.Same n) (key : String) :
    ReadAlike Fields.Same (m.object key) (n.object key) :=
  Fields.object_alike (rel_imp (h.value? key) fun _ _ _ _ => Json.Same.lift)

theorem array_alike (h : Option.Rel Json.Same (m.value? key) (n.value? key)) :
    ReadAlike (List.Forall₂ Json.Same) (m.array key) (n.array key) := by
  refine (require_alike h).bind fun v w hvw => ?_
  cases hvw.parts with
  | array hvs => exact .ok hvs
  | _ => exact .same_error _

/-- A field that is null counts as absent in both. -/
theorem present?_rel (h : Option.Rel Json.Same (m.value? key) (n.value? key)) :
    Option.Rel Json.Same (m.present? key) (n.present? key) := by
  unfold present?
  generalize m.value? key = x at h ⊢
  generalize n.value? key = y at h ⊢
  cases h with
  | none => exact .none
  | some h =>
    cases h.parts with
    | null => exact .none
    | _ => exact .some h

/-! ## Lists and sections -/

section

variable {α β : Type} {S : α → β → Prop} {read : Fields → Except DocumentError α}
  {read' : Fields → Except DocumentError β}

/-- The objects of a list are smaller than the object that holds it. -/
theorem list_alike (h : Option.Rel Json.Same (m.value? key) (n.value? key))
    (hread : ∀ k l, sizeOf k < sizeOf m → k.Same l → ReadAlike S (read k) (read' l)) :
    ReadAlike (List.Forall₂ S) (m.list read key) (n.list read' key) := by
  refine (array_alike h).with_left.bind fun vs ws ⟨hvs, hitems⟩ => ?_
  refine Alike.mapM (forall₂_mem_left hitems) fun v w ⟨hv, hvw⟩ => ?_
  refine (Json.fieldsAt_alike hvw.lift).with_left.bind fun k l ⟨hk, hkl⟩ => hread k l ?_ hkl
  obtain rfl := fieldsAt_eq_ok_iff.1 hk
  exact sizeOf_of_mem_array hvs hv

theorem keyed_alike {R : Fields → Fields → Prop} {name : α → String} {name' : β → String}
    (h : Option.Rel (Json.Lift (SameEntries R)) (m.value? key) (n.value? key))
    (hread : ∀ m n, R m n → ReadAlike S (read m) (read' n))
    (hname : ∀ a b, S a b → name a = name' b) :
    ReadAlike (List.Forall₂ S) (m.keyed read name key) (n.keyed read' name' key) := by
  refine (object_alike h).bind fun _ _ hentries => Alike.mapM hentries fun f g hfg => ?_
  refine (Json.fieldsAt_alike hfg.2).bind fun m n hmn => (hread m n hmn).bind fun a b hab => ?_
  rw [hname a b hab, hfg.1]
  split_ifs
  · exact .ok hab
  · exact .same_error _

end

end Fields

end HdlInterface
