import Mathlib.Tactic.SplitIfs
import HdlInterface.Text.LowerCase

/-!
# Lower case is lower case

No character of a lower-case form has another lower-case form (`isLower_of_mem_lowerChar`), so the
lower-case form of a text is its own lower-case form (`lowerCase_lowerCase`). For the case data
that means that no range of upper-case characters holds an image of another: they lie apart, or
one holds the even and the other the odd code points.
-/

namespace HdlInterface

/-! ## Images of ranges -/

namespace CaseRange

/-- The range is a single code point, or holds every second one. -/
def sparse (r : CaseRange) : Bool := r.step == 2 || r.first == r.last

def image (r : CaseRange) (n : Nat) : Nat := ((n : Int) + r.offset).toNat

/-- No image of the one range lies in the other. -/
def misses (r s : CaseRange) : Bool :=
  Nat.blt (r.image r.last) s.first || (Nat.blt s.last (r.image r.first) ||
    (r.sparse && s.sparse && (r.image r.first + s.first) % 2 == 1))

theorem mod_two_of_sparse {r : CaseRange} {n : Nat} (hr : r.sparse = true)
    (h : r.contains n = true) : n % 2 = r.first % 2 := by
  simp only [contains, sparse, Bool.and_eq_true, Bool.or_eq_true, decide_eq_true_eq, beq_iff_eq]
    at h hr
  obtain ⟨⟨hfirst, hlast⟩, hstep⟩ := h
  rcases hr with hr | hr
  · rw [hr] at hstep
    omega
  · omega

theorem contains_image_eq_false {r s : CaseRange} {n : Nat}
    (hoffset : 0 ≤ (r.first : Int) + r.offset)
    (hmisses : r.misses s = true) (h : r.contains n = true) : s.contains (r.image n) = false := by
  rw [Bool.eq_false_iff]
  intro hs
  have hbounds := h
  have hsbounds := hs
  simp only [contains, Bool.and_eq_true, decide_eq_true_eq] at hbounds hsbounds
  simp only [misses, Bool.or_eq_true, Bool.and_eq_true, Nat.blt_eq, beq_iff_eq] at hmisses
  rcases hmisses with hlast | hfirst | ⟨⟨hr, hsparse⟩, hodd⟩
  · simp only [image] at hlast hsbounds
    omega
  · simp only [image] at hfirst hsbounds
    omega
  · have hn := mod_two_of_sparse hr h
    have himage := mod_two_of_sparse hsparse hs
    simp only [image] at hodd himage
    omega

end CaseRange

/-! ## Single characters -/

/-- The characters that are not their own lower-case form wherever they stand. -/
def raisedRanges : List CaseRange :=
  ⟨0x41, 0x5A, 1, 32⟩ :: ⟨0x130, 0x130, 1, 0⟩ :: ⟨0x3A3, 0x3A3, 1, 0⟩ :: upperRanges

/-- The character is its own lower-case form wherever it stands. -/
def isLower (c : Char) : Bool := c != 'Σ' && lowerChar c == [c]

theorem toLower_eq_self : ∀ n < 0x80, CaseRange.contains ⟨0x41, 0x5A, 1, 32⟩ n = false →
    (Char.ofNat n).toLower = Char.ofNat n := by
  decide

theorem isLower_of_contains_eq_false {c : Char}
    (h : ∀ r ∈ raisedRanges, r.contains c.toNat = false) : isLower c = true := by
  simp only [raisedRanges, List.forall_mem_cons] at h
  obtain ⟨hascii, hdotted, hsigma, hupper⟩ := h
  have hsigma : c ≠ 'Σ' := by
    rintro rfl
    exact absurd hsigma (by decide)
  have hdotted : c ≠ 'İ' := by
    rintro rfl
    exact absurd hdotted (by decide)
  have hself : lowerChar c = [c] := by
    rw [lowerChar]
    split_ifs with hc
    · have hlower := toLower_eq_self c.toNat hc hascii
      rw [Char.ofNat_toNat] at hlower
      rw [hlower]
    · have hfind : upperRanges.find? (·.contains c.toNat) = none := by
        simpa [List.find?_eq_none] using hupper
      rw [hfind]
  simp [isLower, hsigma, hself]

theorem isLower_ascii : ∀ n < 0x80, isLower (Char.ofNat n).toLower = true := by
  decide

theorem offset_nonneg : (upperRanges.all fun r => 0 ≤ (r.first : Int) + r.offset) = true := by
  decide +kernel

/-- No upper-case character is the lower-case form of another. -/
theorem misses_raisedRanges :
    (upperRanges.all fun r => raisedRanges.all fun s => r.misses s) = true := by
  decide +kernel

theorem isLower_image {r : CaseRange} (hr : r ∈ upperRanges) {n : Nat}
    (h : r.contains n = true) : isLower (Char.ofNat (r.image n)) = true := by
  by_cases hvalid : (r.image n).isValidChar
  · have htoNat : (Char.ofNat (r.image n)).toNat = r.image n := by
      rw [Char.ofNat, dif_pos hvalid]
      rfl
    refine isLower_of_contains_eq_false fun s hs => ?_
    rw [htoNat]
    have hoffset : 0 ≤ (r.first : Int) + r.offset := by
      simpa using List.all_eq_true.1 offset_nonneg r hr
    have hmisses := List.all_eq_true.1 (List.all_eq_true.1 misses_raisedRanges r hr) s hs
    exact CaseRange.contains_image_eq_false hoffset hmisses h
  · rw [Char.ofNat, dif_neg hvalid]
    decide

theorem isLower_of_mem_lowerChar {c x : Char} (hc : c ≠ 'Σ') (h : x ∈ lowerChar c) :
    isLower x = true := by
  rw [lowerChar] at h
  split_ifs at h with hascii hdotted
  · rw [List.mem_singleton.1 h, ← Char.ofNat_toNat c]
    exact isLower_ascii _ hascii
  · rw [List.mem_cons, List.mem_singleton] at h
    rcases h with rfl | rfl <;> decide
  · split at h
    · next r hr =>
        rw [List.mem_singleton.1 h]
        refine isLower_image (List.mem_of_find?_eq_some hr) ?_
        simpa using List.find?_some hr
    · next hr =>
        obtain rfl := List.mem_singleton.1 h
        simp [isLower, lowerChar, hascii, hdotted, hr, hc]

/-! ## Text -/

theorem isLower_of_mem_lowerBehind {before s : List Char} {x : Char}
    (h : x ∈ lowerBehind before s) : isLower x = true := by
  induction s generalizing before with
  | nil => cases h
  | cons c s ih =>
      rw [lowerBehind, List.mem_append] at h
      rcases h with h | h
      · split_ifs at h with hsigma hend
        · rw [List.mem_singleton.1 h]
          decide
        · rw [List.mem_singleton.1 h]
          decide
        · exact isLower_of_mem_lowerChar hsigma h
      · exact ih h

theorem lowerBehind_eq_self {s : List Char} (h : ∀ x ∈ s, isLower x = true) (before : List Char) :
    lowerBehind before s = s := by
  induction s generalizing before with
  | nil => rfl
  | cons c s ih =>
      rw [List.forall_mem_cons] at h
      have hc : c ≠ 'Σ' ∧ lowerChar c = [c] := by simpa [isLower] using h.1
      rw [lowerBehind, if_neg hc.1, hc.2, ih h.2, List.singleton_append]

theorem lowerCase_lowerCase (s : String) : lowerCase (lowerCase s) = lowerCase s := by
  rw [lowerCase, lowerCase, String.toList_ofList]
  rw [lowerBehind_eq_self fun _ hx => isLower_of_mem_lowerBehind hx]

end HdlInterface
