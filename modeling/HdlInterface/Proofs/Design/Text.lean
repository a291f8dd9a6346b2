import HdlInterface.Proofs.Design.ReadBack
import HdlInterface.Proofs.Json.Accepted
import HdlInterface.Proofs.Json.ReadBack

/-!
# The text of a design

A lossless design without doubles is read back from its text in any layout, as long as its document
nests no deeper than a reader goes (`Design.text_reads_back`).
-/

namespace HdlInterface

namespace Design

theorem ofText_of_ofText? {text : String} {m : Fields} (h : Json.ofText? text = some (.object m)) :
    ofText text = ofFields m := by
  simp only [ofText, h]
  rfl

theorem ofText_of_malformed {text : String} (h : Json.ofText? text = none) :
    ofText text = .error .malformed := by
  simp only [ofText, h]
  rfl

/-- What was read from a text was read from the object that the text holds. -/
theorem exists_object_of_ofText {text : String} {d : Design} (h : ofText text = .ok d) :
    ∃ m, Json.ofText? text = some (.object m) ∧ ofFields m = .ok d := by
  cases hv : Json.ofText? text with
  | none =>
      rw [ofText_of_malformed hv] at h
      cases h
  | some v =>
      simp only [ofText, hv, bind_eq_ok_iff, Fields.fieldsAt_eq_ok_iff] at h
      obtain ⟨m, rfl, h⟩ := h
      exact ⟨m, rfl, h⟩

theorem toText_eq_ok_iff {layout : Layout} {d : Design} {text : String} :
    d.toText layout = .ok text ↔ ∃ w, d.toFields = .ok w ∧ text = w.toText layout := by
  simp only [toText, bind_eq_ok_iff, pure_eq_ok_iff, @eq_comm _ text]

/-! ## Storable designs -/

/-- All that a design needs to be read back from its text, but for the depth of its document. -/
structure Storable (d : Design) : Prop where
  wellFormed : d.WellFormed
  integral : d.Integral
  uniqueNames : d.UniqueNames
  lossless : d.Lossless

/-- What is read from a text without doubles is storable. -/
theorem storable_of_ofText {text : String} {v : Json} {d : Design}
    (hv : Json.ofText? text = some v) (hi : v.Integral) (hd : ofText text = .ok d) :
    d.Storable := by
  obtain ⟨m, hm, hread⟩ := exists_object_of_ofText hd
  obtain rfl := Option.some.inj (hv.symm.trans hm)
  have hwellFormed := Json.wellFormed_of_ofText? hv
  exact ⟨wellFormed_of_ofFields hwellFormed hread,
    all_raw_of_ofFields Json.lenient_notDouble hi hread,
    uniqueNames_of_ofFields hwellFormed hread, lossless_of_ofFields hwellFormed hread⟩

theorem Storable.ofText?_toText {d : Design} {w : Fields} (hd : d.Storable)
    (hw : d.toFields = .ok w) (layout : Layout) {blanks : String}
    (hblanks : ∀ c ∈ blanks.toList, JsonReader.isBlank c = true) :
    Json.ofText? (w.toText layout ++ blanks) =
      if (Json.object w).depth ≤ Json.depthLimit then some (.object w) else none :=
  Json.ofText?_toText layout (all_of_toFields Json.lenient_distinctKeys hd.wellFormed hw)
    (all_of_toFields Json.lenient_notDouble hd.integral hw) hblanks

/-- The text may be followed by blanks. -/
theorem Storable.ofText_toText {d : Design} {w : Fields} (hd : d.Storable)
    (hw : d.toFields = .ok w) (layout : Layout) {blanks : String}
    (hblanks : ∀ c ∈ blanks.toList, JsonReader.isBlank c = true) :
    ofText (w.toText layout ++ blanks) =
      if (Json.object w).depth ≤ Json.depthLimit then .ok d else .error .malformed := by
  have hread := hd.ofText?_toText hw layout hblanks
  split_ifs at hread ⊢ with hdepth
  · rw [ofText_of_ofText? hread]
    exact ofFields_of_toFields hd.wellFormed hd.uniqueNames hd.lossless hw
  · rw [ofText_of_malformed hread]

/-- The text is read back as the same design, in the same order throughout, if the document nests
at most 127 containers, and refused if it nests more. -/
theorem text_reads_back {d : Design} (hd : d.WellFormed) (hn : d.UniqueNames) (hl : d.Lossless)
    (hi : d.Integral) (layout : Layout) : ∃ w text, d.toFields = .ok w ∧
      d.toText layout = .ok text ∧
      ((Json.object w).depth ≤ 127 → ofText text = .ok d) ∧
      (128 ≤ (Json.object w).depth → ofText text = .error .malformed) := by
  obtain ⟨w, hw⟩ := exists_toFields_of_lossless hl
  have hblanks : ∀ c ∈ "".toList, JsonReader.isBlank c = true := nofun
  have hread := Storable.ofText_toText ⟨hd, hi, hn, hl⟩ hw layout hblanks
  rw [String.append_empty, Json.depthLimit] at hread
  refine ⟨w, w.toText layout, hw, toText_eq_ok_iff.2 ⟨w, hw, rfl⟩, fun h => ?_, fun h => ?_⟩
  · rw [hread, if_pos h]
  · rw [hread, if_neg (by omega)]

/-- A design that imports so many lists, each within the next. -/
def deepCounter (n : Nat) : Design :=
  { counter with imports := [n.repeat (fun v => .array [v]) .null] }

/-- At the limit: the object and its list of imports are containers as well. -/
theorem deepCounter_text_reads_back :
    (∃ text, (deepCounter 125).toText (.indented 0) = .ok text ∧
      ofText text = .ok (deepCounter 125)) ∧
    ∃ text, (deepCounter 126).toText (.indented 0) = .ok text ∧
      ofText text = .error .malformed := by
  constructor
  · obtain ⟨w, text, hw, htext, h, -⟩ :=
      text_reads_back (d := deepCounter 125) (by decide +kernel) (by decide) (by decide)
        (by decide +kernel) (.indented 0)
    cases hw
    exact ⟨text, htext, h (by decide +kernel)⟩
  · obtain ⟨w, text, hw, htext, -, h⟩ :=
      text_reads_back (d := deepCounter 126) (by decide +kernel) (by decide) (by decide)
        (by decide +kernel) (.indented 0)
    cases hw
    exact ⟨text, htext, h (by decide +kernel)⟩

end Design

end HdlInterface
