import HdlInterface.Json.Quoted

/-!
# Quoted strings read back

The text between the quotes of a written string reads back as that string, whatever characters it
holds and whatever follows the closing quote.
-/

namespace HdlInterface.Quoted

/-! ## Hexadecimal digits -/

theorem hexValue?_digitChar : ∀ n < 16, hexValue? (Nat.digitChar n) = some n := by
  decide

theorem hexValue?_hexDigit (n : Nat) : hexValue? (hexDigit n) = some (n % 16) :=
  hexValue?_digitChar (n % 16) (Nat.mod_lt n (by decide))

/-! ## Escapes -/

/-- What is read from an escape sequence is the code point it was written for. -/
theorem readUnits_escape (c : Char) (rest : List Char) :
    readUnits (escape c ++ rest) = (readUnits rest).map fun r => (c.toNat :: r.1, r.2) := by
  by_cases hplain : c = '"' ∨ c = '\\' ∨ c = '\x08' ∨ c = '\t' ∨ c = '\n' ∨ c = '\x0c' ∨ c = '\r'
  · rcases hplain with rfl | rfl | rfl | rfl | rfl | rfl | rfl <;>
      cases h : readUnits rest <;> simp [escape, readUnits, unescape?, h]
  · simp only [not_or] at hplain
    obtain ⟨hquote, hback, hb, ht, hn, hf, hr⟩ := hplain
    by_cases hlow : c.toNat < 0x20
    · have hhigh : hexValue? (hexDigit (c.toNat / 16)) = some (c.toNat / 16) := by
        rw [hexValue?_hexDigit, Nat.mod_eq_of_lt (by omega)]
      have hunit : 16 * (c.toNat / 16) + c.toNat % 16 = c.toNat := Nat.div_add_mod ..
      have hzero : hexValue? '0' = some 0 := rfl
      cases h : readUnits rest <;>
        simp [escape, hquote, hback, hb, ht, hn, hf, hr, hlow, readUnits, hhigh, hexValue?_hexDigit,
          hzero, hunit, h]
    · have hwritten : escape c = [c] := by
        simp [escape, hquote, hback, hb, ht, hn, hf, hr, hlow]
      rw [hwritten, List.singleton_append, readUnits.eq_def]
      split
      · simp_all
      · simp_all
      · simp_all
      · simp_all
      · next heq =>
          obtain ⟨rfl, rfl⟩ := List.cons.inj heq
          cases readUnits rest <;> simp [hlow, hback]

theorem readUnits_flatMap_escape (s rest : List Char) :
    readUnits (s.flatMap escape ++ '"' :: rest) = some (s.map Char.toNat, rest) := by
  induction s with
  | nil => simp [readUnits]
  | cons c s ih =>
      rw [List.flatMap_cons, List.append_assoc, readUnits_escape, ih]
      rfl

/-! ## Code points -/

/-- The code point of a character is no surrogate. -/
theorem isSurrogate_toNat (c : Char) :
    isHighSurrogate c.toNat = false ∧ isLowSurrogate c.toNat = false := by
  have hvalid : c.toNat < 0xD800 ∨ 0xDFFF < c.toNat ∧ c.toNat < 0x110000 := c.valid
  simp only [isHighSurrogate, isLowSurrogate, Bool.and_eq_false_iff, decide_eq_false_iff_not]
  omega

theorem joinUnits_map_toNat (s : List Char) : joinUnits (s.map Char.toNat) = some s := by
  induction s with
  | nil => rfl
  | cons c s ih =>
      obtain ⟨hhigh, hlow⟩ := isSurrogate_toNat c
      cases s with
      | nil => simp [joinUnits, hhigh, hlow, Char.ofNat_toNat]
      | cons d s =>
          rw [List.map_cons, List.map_cons, joinUnits, hhigh, hlow, ← List.map_cons, ih]
          simp [Char.ofNat_toNat]

/-! ## Strings -/

theorem read_escaped (s rest : List Char) :
    read (s.flatMap escape ++ '"' :: rest) = some (String.ofList s, rest) := by
  simp [read, readUnits_flatMap_escape, joinUnits_map_toNat]

/-- A written string begins with a quote, and what follows that reads back. -/
theorem write_append (s rest : List Char) :
    write s ++ rest = '"' :: (s.flatMap escape ++ '"' :: rest) := by
  simp [write]

end HdlInterface.Quoted
