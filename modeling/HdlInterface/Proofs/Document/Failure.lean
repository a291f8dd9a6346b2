import HdlInterface.Proofs.Document.Field

/-!
# Failures

A computation in steps fails at the first step that does. So a list or a section is written up to
the first thing that cannot be, and for the reason of that thing (`failure?_ofList`,
`failure?_ofKeyed`).
-/

namespace HdlInterface

section Except

variable {ε α β : Type}

/-- The error that a computation ends with. -/
def failure? : Except ε α → Option ε
  | .ok _ => none
  | .error e => some e

theorem failure?_eq_some_iff {x : Except ε α} {e : ε} : failure? x = some e ↔ x = .error e := by
  cases x <;> simp [failure?]

/-- Computations that go on alike from the results of a step are equal. -/
theorem bind_congr_of_ok {x : Except ε α} {f g : α → Except ε β}
    (h : ∀ a, x = .ok a → f a = g a) : (x >>= f) = (x >>= g) := by
  cases x with
  | ok a => exact h a rfl
  | error e => rfl

/-- What follows a step does not matter to a failure if it fails alike whatever the step gives. -/
theorem failure?_bind {x : Except ε α} {f : α → Except ε β} {rest : Option ε}
    (h : ∀ a, failure? (f a) = rest) : failure? (x >>= f) = (failure? x).or rest := by
  cases x with
  | ok a => exact h a
  | error e => rfl

theorem failure?_bind_pure (x : Except ε α) (g : α → β) :
    failure? (x >>= fun a => pure (g a)) = failure? x := by
  cases x <;> rfl

theorem failure?_mapM (f : α → Except ε β) (xs : List α) :
    failure? (xs.mapM f) = xs.findSome? fun x => failure? (f x) := by
  induction xs with
  | nil => rfl
  | cons x xs ih =>
      have hrest : ∀ y, failure? (xs.mapM f >>= fun ys => pure (y :: ys)) =
          xs.findSome? fun x => failure? (f x) := fun y => by
        rw [failure?_bind_pure, ih]
      rw [List.mapM_cons, failure?_bind hrest, List.findSome?_cons]
      cases failure? (f x) <;> rfl

theorem findSome?_flatMap {γ : Type} (f : α → List β) (g : β → Option γ) (xs : List α) :
    (xs.flatMap f).findSome? g = xs.findSome? fun x => (f x).findSome? g := by
  induction xs with
  | nil => rfl
  | cons x xs ih =>
      rw [List.flatMap_cons, List.findSome?_append, ih, List.findSome?_cons]
      cases (f x).findSome? g <;> rfl

end Except

/-! ## Kinds of errors -/

/-- A computation that fails, fails with an error of this kind. -/
def FailsOnly {ε α : Type} (P : ε → Prop) (x : Except ε α) : Prop := ∀ e, x = .error e → P e

namespace FailsOnly

variable {ε α β : Type} {P Q : ε → Prop} {x : Except ε α} {f : α → Except ε β}

theorem ok (a : α) : FailsOnly P (.ok a : Except ε α) := nofun

theorem error {e : ε} (h : P e) : FailsOnly P (.error e : Except ε α) := by
  intro e' he
  cases he
  exact h

theorem imp (h : FailsOnly P x) (hPQ : ∀ e, P e → Q e) : FailsOnly Q x := fun e he =>
  hPQ e (h e he)

/-- What follows a step only has to be looked at for the results that the step has. -/
theorem bind (hx : FailsOnly P x) (hf : ∀ a, x = .ok a → FailsOnly P (f a)) :
    FailsOnly P (x >>= f) := by
  cases x with
  | ok a => exact hf a rfl
  | error e => exact error (hx e rfl)

theorem map (g : α → β) (hx : FailsOnly P x) : FailsOnly P (g <$> x) := by
  cases x with
  | ok a => exact ok (g a)
  | error e => exact error (hx e rfl)

theorem mapM {xs : List α} (h : ∀ x ∈ xs, FailsOnly P (f x)) : FailsOnly P (xs.mapM f) := by
  induction xs with
  | nil => exact ok []
  | cons x xs ih =>
      rw [List.forall_mem_cons] at h
      rw [List.mapM_cons]
      exact h.1.bind fun y _ => (ih h.2).bind fun ys _ => ok (y :: ys)

end FailsOnly

/-! ## Lists and sections -/

section Lists

variable {α : Type} (write : α → Except DocumentError Fields) (xs : List α)

theorem failure?_ofList :
    failure? (Json.ofList write xs) = xs.findSome? fun x => failure? (write x) := by
  rw [Json.ofList, failure?_bind_pure, failure?_mapM]

theorem failure?_ofKeyed (name : α → String) :
    failure? (Json.ofKeyed write name xs) = xs.findSome? fun x => failure? (write x) := by
  rw [Json.ofKeyed, failure?_bind_pure, failure?_mapM]
  simp only [failure?_bind_pure]

end Lists

end HdlInterface
