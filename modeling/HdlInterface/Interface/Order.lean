import HdlInterface.Interface.Basic

/-!
# Order of an interface

Generics and ports arranged by name, character by character. What has the same name keeps its order.
-/

namespace HdlInterface

/-- A missing name comes before every name. -/
def nameLE : Option String → Option String → Bool
  | none, _ => true
  | some _, none => false
  | some a, some b => decide (a ≤ b)

/-- Arranges generics and ports by name; ports without a signal come first. -/
def Entity.arrange (e : Entity) : Entity :=
  { e with
    generics := e.generics.mergeSort fun g h => nameLE (some g.name) (some h.name)
    ports := e.ports.mergeSort fun p q => nameLE p.name? q.name? }

theorem nameLE_total (a b : Option String) : (nameLE a b || nameLE b a) = true := by
  cases a <;> cases b <;> simp [nameLE, String.le_total]

theorem nameLE_trans (a b c : Option String) (hab : nameLE a b = true) (hbc : nameLE b c = true) :
    nameLE a c = true := by
  cases a <;> cases b <;> cases c <;> simp_all [nameLE]
  exact String.le_trans hab hbc

end HdlInterface
