import Mathlib.Tactic.SplitIfs
import HdlInterface.Json.Numeral

/-!
# Integers read back

The digits of an integer read back as that integer. What follows must not go on with the numeral
(`Numeral.Stops`).
-/

namespace HdlInterface

/-! ## Decimal digits -/

/-- A positive number is written without a leading zero. -/
theorem head?_toDigits_ne_zero (n : Nat) (hn : n ≠ 0) : (Nat.toDigits 10 n).head? ≠ some '0' := by
  induction n using Nat.strongRecOn with
  | ind n ih =>
      by_cases hsmall : n < 10
      · rw [Nat.toDigits_of_lt_base hsmall]
        have hall : ∀ k < 10, k ≠ 0 → [Nat.digitChar k].head? ≠ some '0' := by decide
        exact hall n hsmall hn
      · have hne : (Nat.toDigits 10 (n / 10)).head? ≠ some '0' := ih (n / 10) (by omega) (by omega)
        rw [Nat.toDigits_of_base_le (by decide) (by omega), List.head?_append]
        cases hhead : (Nat.toDigits 10 (n / 10)).head? with
        | none => exact absurd (List.head?_eq_none_iff.1 hhead) Nat.toDigits_ne_nil
        | some c => rwa [hhead] at hne

theorem toDigits_leadingZero (n : Nat) :
    ¬((Nat.toDigits 10 n).head? = some '0' ∧ (Nat.toDigits 10 n).length ≠ 1) := by
  rintro ⟨hhead, hlength⟩
  by_cases hn : n = 0
  · rw [hn, Nat.toDigits_zero] at hlength
    exact hlength rfl
  · exact head?_toDigits_ne_zero n hn hhead

/-! ## The end of a numeral -/

/-- The text does not go on with a numeral that stands in front of it. -/
def Numeral.Stops (rest : List Char) : Prop :=
  ∀ c ∈ rest.head?, c.isDigit = false ∧ c ≠ '.' ∧ c ≠ 'e' ∧ c ≠ 'E'

namespace Numeral

theorem stops_nil : Stops [] := nofun

theorem stops_cons {c : Char} {rest : List Char}
    (h : c.isDigit = false ∧ c ≠ '.' ∧ c ≠ 'e' ∧ c ≠ 'E') : Stops (c :: rest) := by
  rintro d hd
  cases hd
  exact h

theorem spanDigits_append {digits rest : List Char} (hdigits : ∀ c ∈ digits, c.isDigit = true)
    (hrest : Stops rest) : spanDigits (digits ++ rest) = (digits, rest) := by
  rw [spanDigits, List.takeWhile_append_of_pos hdigits, List.dropWhile_append_of_pos hdigits]
  cases rest with
  | nil => simp
  | cons c rest =>
      have hc : c.isDigit = false := (hrest c rfl).1
      simp [hc]

theorem readFraction_of_stops {rest : List Char} (h : Stops rest) :
    readFraction rest = some ([], rest) := by
  cases rest with
  | nil => rfl
  | cons c rest =>
      have hc : c ≠ '.' := (h c rfl).2.1
      rw [readFraction.eq_def]
      split
      · next heq => exact absurd (List.cons.inj heq).1 hc
      · rfl

theorem readExponent_of_stops {rest : List Char} (h : Stops rest) :
    readExponent rest = some (none, rest) := by
  cases rest with
  | nil => rfl
  | cons c rest =>
      obtain ⟨-, -, he, hE⟩ := h c rfl
      simp [readExponent, he, hE]

/-! ## Integers -/

/-- An unsigned row of digits is read as a whole. -/
theorem read_toDigits (n : Nat) {rest : List Char} (h : Stops rest) :
    read (Nat.toDigits 10 n ++ rest) = some (⟨false, Nat.toDigits 10 n, [], 0, true⟩, rest) := by
  have hdigit : ∀ c ∈ Nat.toDigits 10 n, c.isDigit = true := fun c hc =>
    Nat.isDigit_of_mem_toDigits (by decide) (by decide) hc
  have hsign : ∀ s, Nat.toDigits 10 n ++ rest ≠ '-' :: s := by
    intro s hs
    obtain ⟨c, digits, hcons⟩ := List.exists_cons_of_ne_nil (Nat.toDigits_ne_nil (b := 10) (n := n))
    rw [hcons, List.cons_append] at hs
    have hc := hdigit c (hcons ▸ List.mem_cons_self)
    rw [(List.cons.inj hs).1] at hc
    cases hc
  unfold read
  split
  next negative s heq =>
    split at heq
    · next hminus => exact absurd hminus (hsign _)
    · obtain ⟨rfl, rfl⟩ := Prod.mk.inj heq
      simp [spanDigits_append hdigit h, Nat.toDigits_ne_nil, toDigits_leadingZero n,
        readFraction_of_stops h, readExponent_of_stops h]

theorem read_minus_toDigits (n : Nat) {rest : List Char} (h : Stops rest) :
    read ('-' :: (Nat.toDigits 10 n ++ rest)) =
      some (⟨true, Nat.toDigits 10 n, [], 0, true⟩, rest) := by
  have hdigit : ∀ c ∈ Nat.toDigits 10 n, c.isDigit = true := fun c hc =>
    Nat.isDigit_of_mem_toDigits (by decide) (by decide) hc
  simp [read, spanDigits_append hdigit h, Nat.toDigits_ne_nil, toDigits_leadingZero n,
    readFraction_of_stops h, readExponent_of_stops h]

/-- A row of digits stands for an integer that 64 bits hold. -/
theorem number?_toDigits {k : Nat} {n : Integer} (hvalue : (k : Int) = n.value) :
    number? ⟨false, Nat.toDigits 10 k, [], 0, true⟩ = some (.integer n) := by
  simp [number?, Nat.ofDigitChars_ten_toDigits, hvalue, Integer.ofInt?_value]

/-- Negative zero is no integer. -/
theorem number?_minus_toDigits {k : Nat} {n : Integer} (hvalue : -(k : Int) = n.value)
    (hk : k ≠ 0) : number? ⟨true, Nat.toDigits 10 k, [], 0, true⟩ = some (.integer n) := by
  simp [number?, Nat.ofDigitChars_ten_toDigits, hvalue, hk, Integer.ofInt?_value]

end Numeral

theorem Number.read_of_numeral {s rest : List Char} {numeral : Numeral} {x : Number}
    (hread : Numeral.read s = some (numeral, rest)) (hnumber : numeral.number? = some x) :
    Number.read s = some (x, rest) := by
  simp [Number.read, hread, hnumber]

theorem Number.read_writeInt (n : Integer) {rest : List Char} (h : Numeral.Stops rest) :
    Number.read (writeInt n.value ++ rest) = some (.integer n, rest) := by
  unfold writeInt
  split_ifs with hneg
  · have hvalue : -(n.value.natAbs : Int) = n.value := by omega
    exact Number.read_of_numeral (Numeral.read_minus_toDigits _ h)
      (Numeral.number?_minus_toDigits hvalue (by omega))
  · have hvalue : (n.value.natAbs : Int) = n.value := by omega
    exact Number.read_of_numeral (Numeral.read_toDigits _ h) (Numeral.number?_toDigits hvalue)

end HdlInterface
