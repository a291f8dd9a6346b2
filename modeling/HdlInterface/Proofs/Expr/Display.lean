import Mathlib.Tactic.SplitIfs
import HdlInterface.Expr.Basic
import HdlInterface.Language.Basic
import HdlInterface.Proofs.Text.Ascii

/-!
# Displayed expressions

Operators are shown in lower case whatever they are, and canonical names are in lower case too. So
an expression in ASCII with canonical names is shown in lower case throughout
(`Expr.display_canonical`). A string would stay as it is.
-/

namespace HdlInterface

namespace Expr

mutual

/-- All names and operators are ASCII, and there are no strings. -/
def isPlain : Expr → Bool
  | literal (.name parts) => parts.all fun part => decide (IsAscii part)
  | literal (.integer ..) => true
  | literal (.string _) => false
  | binary o x y => decide (IsAscii o) && x.isPlain && y.isPlain
  | nary o x xs => decide (IsAscii o) && x.isPlain && isPlainList xs

def isPlainList : List Expr → Bool
  | [] => true
  | x :: xs => x.isPlain && isPlainList xs

end

mutual

/-- The names are shown in lower case, and all else is anyway. -/
theorem display_mapNames_lowerCase : (e : Expr) → e.isPlain = true →
    (e.mapNames lowerCase).display = asciiLower e.display
  | literal (.name parts), h => by
    have hascii : ∀ part ∈ parts, IsAscii part := by simpa [isPlain] using h
    have hparts : parts.map lowerCase = parts.map asciiLower :=
      List.map_congr_left fun part hpart => lowerCase_eq_asciiLower (hascii part hpart)
    rw [mapNames, display, display, asciiLower_intercalate, hparts]
    rfl
  | literal (.integer value bits), _ => (asciiLower_toString value.toInt).symm
  | literal (.string text), h => by cases h
  | binary o x y, h => by
    simp only [isPlain, Bool.and_eq_true, decide_eq_true_eq] at h
    obtain ⟨⟨ho, hx⟩, hy⟩ := h
    simp only [mapNames, display, asciiLower_append, asciiLower_lowerCase ho,
      display_mapNames_lowerCase x hx, display_mapNames_lowerCase y hy]
    rfl
  | nary o x xs, h => by
    simp only [isPlain, Bool.and_eq_true, decide_eq_true_eq] at h
    obtain ⟨⟨ho, hx⟩, hxs⟩ := h
    simp only [mapNames, display, asciiLower_append, asciiLower_intercalate,
      display_mapNames_lowerCase x hx, displayList_mapNamesList_lowerCase xs hxs]
    split_ifs
    · rw [asciiLower_append]
      rfl
    · simp only [asciiLower_append, asciiLower_lowerCase ho]
      rfl

theorem displayList_mapNamesList_lowerCase : (xs : List Expr) → isPlainList xs = true →
    displayList (mapNamesList lowerCase xs) = (displayList xs).map asciiLower
  | [], _ => rfl
  | x :: xs, h => by
    simp only [isPlainList, Bool.and_eq_true] at h
    simp only [mapNamesList, displayList, List.map_cons, display_mapNames_lowerCase x h.1,
      displayList_mapNamesList_lowerCase xs h.2]

end

/-- An expression with canonical names is shown as it was, in lower case. -/
theorem display_canonical (e : Expr) (h : e.isPlain = true) :
    (e.mapNames Language.vhdl.canonical).display = asciiLower e.display := by
  have hcanonical : Language.vhdl.canonical = lowerCase := funext Language.canonical_vhdl
  rw [hcanonical, display_mapNames_lowerCase e h]

/-- A call in which the operators are in small letters, in capitals, and one letter from a call. -/
def mixedCall : Expr :=
  call (selected ["IEEE", "Resize"])
    [binary "DownTo" (int (-7)) (id "N"), nary "Call" (id "F") [vector 255 8],
      nary "NOT" (id "s") []]

theorem mixedCall_display_canonical :
    mixedCall.display = "IEEE.Resize(-7 downto N, call(F, 255), not(s, ))" ∧
      (mixedCall.mapNames Language.vhdl.canonical).display =
        "ieee.resize(-7 downto n, call(f, 255), not(s, ))" := by
  have hdisplay : mixedCall.display = "IEEE.Resize(-7 downto N, call(F, 255), not(s, ))" := by
    decide +kernel
  refine ⟨hdisplay, ?_⟩
  rw [display_canonical mixedCall (by decide), hdisplay]
  decide

end Expr

end HdlInterface
