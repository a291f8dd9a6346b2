import HdlInterface.Proofs.Design.Depth

/-!
# The text of an expression

The document of an expression nests exactly as deep as the expression (`Expr.depth_toFields`). So
the text of an expression is refused for its depth alone, and the boundary is that of the tree
(`Expr.text_readable_iff`).
-/

namespace HdlInterface

namespace Expr

theorem depth_toFields (e : Expr) : (Json.object e.toFields).depth = e.depth :=
  Nat.le_antisymm e.depth_toFields_le (depth_le_of_describedBy e e.describedBy_toFields)

/-- In any layout the whole document is read again, or nothing is. -/
theorem ofText?_toText (e : Expr) (layout : Layout) :
    Json.ofText? (e.toFields.toText layout) =
      if e.depth ≤ Json.depthLimit then some (.object e.toFields) else none := by
  have hkeys : (Json.object e.toFields).WellFormed := e.all_toFields Json.lenient_distinctKeys
  have hnumbers : (Json.object e.toFields).Integral := e.all_toFields Json.lenient_notDouble
  have hblanks : ∀ c ∈ "".toList, JsonReader.isBlank c = true := nofun
  have hread := Json.ofText?_toText layout hkeys hnumbers hblanks
  rwa [String.append_empty, depth_toFields] at hread

/-- An expression is written whatever its depth, and its document is read back as it stands. Its
text is JSON to a reader exactly up to 127 nested containers, and is then read back as well. -/
theorem text_readable_iff (e : Expr) (layout : Layout) :
    (Json.object e.toFields).depth = e.depth ∧
      ((∃ v, Json.ofText? (e.toFields.toText layout) = some v) ↔ e.depth ≤ 127) ∧
      (e.depth ≤ 127 → ∃ m, Json.ofText? (e.toFields.toText layout) = some (.object m) ∧
        ofFields m = .ok e) ∧
      ofFields e.toFields = .ok e := by
  have hread := e.ofText?_toText layout
  rw [Json.depthLimit] at hread
  have hreadable : (∃ v, Json.ofText? (e.toFields.toText layout) = some v) ↔ e.depth ≤ 127 := by
    rw [hread]
    split_ifs with hdepth <;> simp [hdepth]
  refine ⟨e.depth_toFields, hreadable, fun hdepth => ?_, e.ofFields_toFields⟩
  rw [if_pos hdepth] at hread
  exact ⟨e.toFields, hread, e.ofFields_toFields⟩

/-- Sums nested so many times, around an expression. -/
def nestedSum (n : Nat) (e : Expr) : Expr := n.repeat (fun x => .binary "ADD" (.int 1) x) e

/-- At the limit: one more part in the name that is called with makes the text unreadable. -/
theorem nestedSum_text_readable :
    (∃ m, Json.ofText? ((nestedSum 61 (.call (.id "f") [.id "x"])).toFields.toText (.indented 3)) =
        some (.object m) ∧ ofFields m = .ok (nestedSum 61 (.call (.id "f") [.id "x"]))) ∧
      ¬∃ v, Json.ofText? ((nestedSum 61 (.call (.id "f") [.selected ["p", "x"]])).toFields.toText
        .compact) = some v := by
  constructor
  · exact (text_readable_iff _ (.indented 3)).2.2.1 (by decide +kernel)
  · rw [(text_readable_iff _ .compact).2.1]
    decide +kernel

end Expr

end HdlInterface
