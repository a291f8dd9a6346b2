import Mathlib.Data.String.Defs
import HdlInterface.Text.LowerCase

/-!
# ASCII letters

Lower case over ASCII changes letters into letters and nothing else (`toLower_eq_iff`), one by one,
so that it goes through a text part by part. On a text of ASCII characters it is the lower case of
Unicode (`lowerCase_eq_asciiLower`).
-/

namespace HdlInterface

/-! ## Characters -/

theorem not_le_of_not_isAscii {c d : Char} (h : c.isAscii = false) (hd : d.isAscii = true) :
    ¬c ≤ d := fun hle =>
  absurd (decide_eq_true (Nat.lt_of_le_of_lt hle (of_decide_eq_true hd))) (Bool.eq_false_iff.1 h)

theorem toLower_of_not_isAscii {c : Char} (h : c.isAscii = false) : c.toLower = c :=
  dif_neg fun hle => not_le_of_not_isAscii h (d := 'Z') rfl hle.2

theorem toUpper_of_not_isAscii {c : Char} (h : c.isAscii = false) : c.toUpper = c :=
  dif_neg fun hle => not_le_of_not_isAscii h (d := 'z') rfl hle.2

/-- What holds of all ASCII characters can be found out one by one. -/
theorem of_isAscii {p : Char → Prop} (h : ∀ n < 0x80, p (Char.ofNat n)) {c : Char}
    (hc : c.isAscii = true) : p c := by
  rw [← Char.ofNat_toNat c]
  exact h c.toNat (of_decide_eq_true hc)

theorem toLower_toLower (c : Char) : c.toLower.toLower = c.toLower := by
  cases hc : c.isAscii with
  | false => rw [toLower_of_not_isAscii hc, toLower_of_not_isAscii hc]
  | true => exact of_isAscii (p := fun c => c.toLower.toLower = c.toLower) (by decide) hc

theorem toLower_eq_iff {c d : Char} (hd : d.isAlpha = false) : c.toLower = d ↔ c = d := by
  cases hc : c.isAscii with
  | false => rw [toLower_of_not_isAscii hc]
  | true =>
    have hletters : c.toLower = c ∨ (c.isAlpha = true ∧ c.toLower.isAlpha = true) :=
      of_isAscii (p := fun c => c.toLower = c ∨ (c.isAlpha = true ∧ c.toLower.isAlpha = true))
        (by decide) hc
    rcases hletters with h | ⟨h, hlower⟩
    · rw [h]
    · refine iff_of_false ?_ ?_
      · rintro rfl
        exact absurd hlower (Bool.eq_false_iff.1 hd)
      · rintro rfl
        exact absurd h (Bool.eq_false_iff.1 hd)

theorem isAscii_of_toLower {c : Char} (h : c.toLower.isAscii = true) : c.isAscii = true := by
  cases hc : c.isAscii with
  | false => rwa [toLower_of_not_isAscii hc, hc] at h
  | true => rfl

theorem isAscii_of_isDigit {c : Char} (h : c.isDigit = true) : c.isAscii = true := by
  simp only [Char.isDigit, Bool.and_eq_true, decide_eq_true_eq] at h
  exact decide_eq_true (Nat.lt_of_le_of_lt (UInt32.le_iff_toNat_le.1 h.2) (by decide))

theorem of_isDigit {p : Char → Prop}
    (h : ∀ n < 0x80, (Char.ofNat n).isDigit = true → p (Char.ofNat n)) {c : Char}
    (hc : c.isDigit = true) : p c :=
  of_isAscii (p := fun c => c.isDigit = true → p c) h (isAscii_of_isDigit hc) hc

theorem toLower_of_isDigit {c : Char} (h : c.isDigit = true) : c.toLower = c :=
  of_isDigit (p := fun c => c.toLower = c) (by decide) h

theorem toUpper_toLower {c : Char} (h : c.isLower = false) : c.toLower.toUpper = c := by
  cases hc : c.isAscii with
  | false => rw [toLower_of_not_isAscii hc, toUpper_of_not_isAscii hc]
  | true =>
    exact of_isAscii (p := fun c => c.isLower = false → c.toLower.toUpper = c) (by decide) hc h

/-! ## Texts -/

theorem toList_asciiLower (s : String) : (asciiLower s).toList = s.toList.map Char.toLower :=
  String.toList_ofList

theorem asciiLower_append (s t : String) : asciiLower (s ++ t) = asciiLower s ++ asciiLower t := by
  simp [asciiLower, String.ofList_append]

theorem asciiLower_asciiLower (s : String) : asciiLower (asciiLower s) = asciiLower s := by
  have hchars : Char.toLower ∘ Char.toLower = Char.toLower := funext toLower_toLower
  rw [asciiLower, toList_asciiLower, List.map_map, hchars]
  rfl

theorem asciiLower_eq_self {s : String} (h : ∀ c ∈ s.toList, c.toLower = c) : asciiLower s = s := by
  rw [asciiLower, List.map_congr_left h, List.map_id', String.ofList_toList]

/-- The text of an integer has no letters. -/
theorem asciiLower_toString (n : Int) : asciiLower (toString n) = toString n := by
  have hnat : ∀ n : Nat, asciiLower (Nat.repr n) = Nat.repr n := fun n => by
    refine asciiLower_eq_self fun c hc => toLower_of_isDigit ?_
    rw [Nat.toList_repr] at hc
    exact Nat.isDigit_of_mem_toDigits (by decide) (by decide) hc
  cases n with
  | ofNat n => exact hnat n
  | negSucc n =>
    show asciiLower ("-" ++ Nat.repr (n + 1)) = "-" ++ Nat.repr (n + 1)
    rw [asciiLower_append, hnat]
    rfl

theorem asciiLower_intercalate (separator : String) (parts : List String) :
    asciiLower (separator.intercalate parts) =
      (asciiLower separator).intercalate (parts.map asciiLower) := by
  induction parts with
  | nil => rfl
  | cons part parts ih =>
    cases parts with
    | nil => simp
    | cons next parts =>
      rw [String.intercalate_cons_cons, asciiLower_append, asciiLower_append, ih]
      simp [String.intercalate_cons_cons]

/-- Every character of the text is an ASCII character. -/
def IsAscii (s : String) : Prop := ∀ c ∈ s.toList, c.isAscii = true

instance (s : String) : Decidable (IsAscii s) :=
  decidable_of_iff (s.toList.all Char.isAscii = true) List.all_eq_true

theorem lowerBehind_of_isAscii {s : List Char} (h : ∀ c ∈ s, c.isAscii = true)
    (before : List Char) : lowerBehind before s = s.map Char.toLower := by
  induction s generalizing before with
  | nil => rfl
  | cons c s ih =>
    obtain ⟨hc, hs⟩ := List.forall_mem_cons.1 h
    have hsigma : c ≠ 'Σ' := by
      rintro rfl
      exact absurd hc (by decide)
    have hlower : lowerChar c = [c.toLower] := if_pos (of_decide_eq_true hc)
    rw [lowerBehind, if_neg hsigma, hlower, ih hs]
    rfl

theorem lowerCase_eq_asciiLower {s : String} (h : IsAscii s) : lowerCase s = asciiLower s :=
  congrArg String.ofList (lowerBehind_of_isAscii h [])

theorem asciiLower_lowerCase {s : String} (h : IsAscii s) :
    asciiLower (lowerCase s) = lowerCase s := by
  rw [lowerCase_eq_asciiLower h, asciiLower_asciiLower]

end HdlInterface
