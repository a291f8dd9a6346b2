/-!
# Integers of fixed width

Integers that 64 bits hold, and the integers among them that fit a narrower word.
-/

namespace HdlInterface

/-! ## Words -/

/-- The integer `n` as a signed word of 64 bits, if it is one. -/
def int64? (n : Int) : Option Int64 :=
  if -0x8000000000000000 ≤ n ∧ n < 0x8000000000000000 then some (Int64.ofInt n) else none

/-- The integer `n` as an unsigned word of 32 bits, if it is one. -/
def uint32? (n : Int) : Option UInt32 :=
  if 0 ≤ n ∧ n < 0x100000000 then some (UInt32.ofNat n.toNat) else none

theorem int64?_eq_some_iff {n : Int} {w : Int64} : int64? n = some w ↔ w.toInt = n := by
  have lower := Int64.le_toInt w
  have upper := Int64.toInt_lt w
  unfold int64?
  split
  · next h =>
      rw [Option.some.injEq]
      constructor
      · intro e
        rw [← e]
        exact Int64.toInt_ofInt_of_le (by omega) (by omega)
      · intro e
        rw [← e, Int64.ofInt_toInt]
  · next h =>
      constructor
      · intro e
        cases e
      · intro e
        omega

theorem uint32?_eq_some_iff {n : Int} {w : UInt32} : uint32? n = some w ↔ (w.toNat : Int) = n := by
  have upper := w.toNat_lt
  unfold uint32?
  split
  · next h =>
      rw [Option.some.injEq]
      constructor
      · intro e
        have small : n.toNat < UInt32.size := (Int.toNat_lt h.1).2 h.2
        rw [← e, UInt32.toNat_ofNat_of_lt' small]
        exact Int.toNat_of_nonneg h.1
      · intro e
        rw [← e]
        simp
  · next h =>
      constructor
      · intro e
        cases e
      · intro e
        omega

/-! ## Integers of 64 bits -/

/-- An integer of 64 bits, signed or unsigned. -/
structure Integer where
  value : Int
  lower : -0x8000000000000000 ≤ value
  upper : value < 0x10000000000000000
deriving DecidableEq

namespace Integer

/-- The integer `n` where 64 bits hold it. -/
def ofInt? (n : Int) : Option Integer :=
  if h : -0x8000000000000000 ≤ n ∧ n < 0x10000000000000000 then some ⟨n, h.1, h.2⟩ else none

theorem ofInt?_value (n : Integer) : ofInt? n.value = some n := by
  unfold ofInt?
  rw [dif_pos ⟨n.lower, n.upper⟩]

def ofInt64 (n : Int64) : Integer :=
  ⟨n.toInt, by have := Int64.le_toInt n; omega, by have := Int64.toInt_lt n; omega⟩

def ofNat32 (n : UInt32) : Integer :=
  ⟨n.toNat, by omega, by have := n.toNat_lt; omega⟩

end Integer

end HdlInterface
