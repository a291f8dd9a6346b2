import HdlInterface.Language.FileName
import HdlInterface.Proofs.Files.Path
import HdlInterface.Proofs.Text.Ascii

/-!
# Extensions

The language of a file depends on how its name ends, in letters of either case, and on nothing else
of its path (`Language.ofPath?_by_extension`).
-/

namespace HdlInterface

/-! ## Endings -/

/-- The text ends in another, each letter in either case. Nothing but an ASCII letter stands for a
letter. -/
def EndsIn (s ending : String) : Prop :=
  ∃ base tail, s = base ++ tail ∧ IsAscii tail ∧ asciiLower tail = ending

theorem EndsIn.suffix {s ending : String} (h : EndsIn s ending) :
    ending.toList <:+ (asciiLower s).toList := by
  obtain ⟨base, tail, rfl, -, rfl⟩ := h
  rw [asciiLower_append, String.toList_append]
  exact List.suffix_append _ _

theorem endsIn_iff {s ending : String} (h : IsAscii ending) :
    EndsIn s ending ↔ ending.toList <:+ (asciiLower s).toList := by
  refine ⟨EndsIn.suffix, ?_⟩
  rintro ⟨base, hbase⟩
  rw [toList_asciiLower] at hbase
  obtain ⟨base', tail, hs, -, htail⟩ := List.map_eq_append_iff.1 hbase.symm
  refine ⟨String.ofList base', String.ofList tail, ?_, fun c hc => ?_, ?_⟩
  · rw [← String.ofList_append, ← hs, String.ofList_toList]
  · rw [String.toList_ofList] at hc
    exact isAscii_of_toLower (h _ (htail ▸ List.mem_map_of_mem hc))
  · rw [asciiLower, String.toList_ofList, htail, String.ofList_toList]

theorem dropEnding_append (ending s : List Char) : dropEnding ending (s ++ ending) = s := by
  have hends : ending.isSuffixOf (s ++ ending) = true :=
    List.isSuffixOf_iff_suffix.2 (List.suffix_append _ _)
  rw [dropEnding, if_pos hends, List.length_append, Nat.add_sub_cancel, List.take_left]

theorem dropEnding_eq_self {ending s : List Char} (h : ¬ending <:+ s) : dropEnding ending s = s :=
  if_neg (mt List.isSuffixOf_iff_suffix.1 h)

/-! ## Extensions -/

namespace Language

/-- The extensions of the files of a language. -/
def extensions : Language → List String
  | vhdl => [".vhd", ".vhdl"]
  | verilog => [".v"]

/-- Neither text is an ending of the other. -/
def Apart (s t : List Char) : Prop := ¬s <:+ t ∧ ¬t <:+ s

instance (s t : List Char) : Decidable (Apart s t) := inferInstanceAs (Decidable (_ ∧ _))

theorem Apart.not_suffix {s t name : List Char} (h : Apart s t) (hs : s <:+ name) : ¬t <:+ name :=
  fun ht => (List.suffix_or_suffix_of_suffix hs ht).elim h.1 h.2

theorem exists_extension_vhdl {p : String → Prop} :
    (∃ ext ∈ vhdl.extensions, p ext) ↔ p ".vhd" ∨ p ".vhdl" := by
  simp [extensions]

theorem exists_extension_verilog {p : String → Prop} :
    (∃ ext ∈ verilog.extensions, p ext) ↔ p ".v" := by
  simp [extensions]

theorem ofExtension?_eq_some_iff {name : List Char} {l : Language} :
    ofExtension? name = some l ↔ ∃ ext ∈ l.extensions, ext.toList <:+ name := by
  have hvhd : Apart ".v".toList ".vhd".toList := by decide
  have hvhdl : Apart ".v".toList ".vhdl".toList := by decide
  unfold ofExtension?
  simp only [Bool.or_eq_true, List.isSuffixOf_iff_suffix]
  cases l with
  | vhdl =>
    rw [exists_extension_vhdl]
    split_ifs with h hv
    · exact iff_of_true rfl h
    · exact iff_of_false nofun h
    · exact iff_of_false nofun h
  | verilog =>
    rw [exists_extension_verilog]
    split_ifs with h hv
    · refine iff_of_false nofun fun hv => ?_
      exact h.elim (hvhd.not_suffix hv) (hvhdl.not_suffix hv)
    · exact iff_of_true rfl hv
    · exact iff_of_false nofun hv

theorem ofExtension?_dropEnding_eq_some_iff {name : List Char} {l : Language} :
    ofExtension? (dropEnding ".json".toList name) = some l ↔
      ∃ ext ∈ l.extensions, ext.toList <:+ name ∨ (ext ++ ".json").toList <:+ name := by
  have hapart : ∀ ext ∈ l.extensions, Apart ".json".toList ext.toList := by cases l <;> decide
  rw [ofExtension?_eq_some_iff]
  by_cases hjson : ".json".toList <:+ name
  · obtain ⟨stem, rfl⟩ := hjson
    rw [dropEnding_append]
    refine exists_congr fun ext => and_congr_right fun hext => ?_
    have hnot := (hapart ext hext).not_suffix (List.suffix_append stem ".json".toList)
    rw [String.toList_append, List.suffix_append_self_iff]
    exact (or_iff_right hnot).symm
  · rw [dropEnding_eq_self hjson]
    refine exists_congr fun ext => and_congr_right fun hext => ?_
    have hnot : ¬(ext ++ ".json").toList <:+ name := fun h => by
      rw [String.toList_append] at h
      exact hjson ((List.suffix_append _ _).trans h)
    exact (or_iff_left hnot).symm

theorem ofPath?_of_fileName? {path name : String} (h : fileName? path.toList = some name.toList) :
    ofPath? path = ofExtension? (dropEnding ".json".toList (asciiLower name).toList) := by
  rw [ofPath?, h, toList_asciiLower]
  rfl

theorem ofPath?_asciiLower (path : String) : ofPath? (asciiLower path) = ofPath? path := by
  have hname : fileName? (asciiLower path).toList =
      (fileName? path.toList).map (List.map Char.toLower) := by
    rw [toList_asciiLower]
    exact fileName?_map (fun _ => toLower_eq_iff rfl) (fun _ => toLower_eq_iff rfl) _
  have hchars : Char.toLower ∘ Char.toLower = Char.toLower := funext toLower_toLower
  rw [ofPath?, ofPath?, hname]
  cases fileName? path.toList with
  | none => rfl
  | some name => simp [hchars]

theorem ofPath?_congr {path path' : String}
    (h : fileName? path.toList = fileName? path'.toList) : ofPath? path = ofPath? path' := by
  rw [ofPath?, ofPath?, h]

theorem ofPath?_text_eq_some_iff (p : NamedPath) (l : Language) :
    ofPath? p.text = some l ↔
      ∃ ext ∈ l.extensions, EndsIn p.name ext ∨ EndsIn p.name (ext ++ ".json") := by
  have hascii : ∀ ext ∈ l.extensions, IsAscii ext ∧ IsAscii (ext ++ ".json") := by
    cases l <;> decide
  rw [ofPath?_of_fileName? p.fileName?_text, ofExtension?_dropEnding_eq_some_iff]
  refine exists_congr fun ext => and_congr_right fun hext => ?_
  rw [endsIn_iff (hascii ext hext).1, endsIn_iff (hascii ext hext).2]

theorem ofPath?_document {p : NamedPath} (h : ¬EndsIn p.name ".json") :
    ofPath? p.document.text = ofPath? p.text := by
  have hjson : ¬".json".toList <:+ (asciiLower p.name).toList := mt (endsIn_iff (by decide)).2 h
  have hname : (asciiLower p.document.name).toList =
      (asciiLower p.name).toList ++ ".json".toList := by
    rw [NamedPath.document, asciiLower_append, String.toList_append]
    rfl
  rw [ofPath?_of_fileName? p.document.fileName?_text, ofPath?_of_fileName? p.fileName?_text, hname,
    dropEnding_append, dropEnding_eq_self hjson]

theorem ofPath?_eq_none_of_json_json {p : NamedPath} (h : EndsIn p.name ".json.json") :
    ofPath? p.text = none := by
  rw [Option.eq_none_iff_forall_ne_some]
  intro l hl
  have hapart : ∀ ext ∈ l.extensions, Apart ".json.json".toList ext.toList ∧
      Apart ".json.json".toList (ext ++ ".json").toList := by cases l <;> decide
  obtain ⟨ext, hext, hends | hends⟩ := (ofPath?_text_eq_some_iff p l).1 hl
  · exact (hapart ext hext).1.not_suffix h.suffix hends.suffix
  · exact (hapart ext hext).2.not_suffix h.suffix hends.suffix

/-- The language follows from the file name of a path, in letters of either case, and the first
statement says which paths have a file name. The name has to end in an extension, or in an extension
and one `.json`. -/
theorem ofPath?_by_extension :
    (∀ path name : String, fileName? path.toList = some name.toList ↔
      ∃ p : NamedPath, p.text = path ∧ p.name = name) ∧
    (∀ path : String, (¬∃ p : NamedPath, p.text = path) → ofPath? path = none) ∧
    (∀ path ∈ ["", "/", ".", ".."], ¬∃ p : NamedPath, p.text = path) ∧
    ∀ p : NamedPath,
      (∀ above, ofPath? (above ++ "/" ++ p.text) = ofPath? p.text) ∧
      (∀ trail, ofPath? (p.text ++ Trailer.texts trail) = ofPath? p.text) ∧
      (∀ path, asciiLower path = asciiLower p.text → ofPath? path = ofPath? p.text) ∧
      (¬EndsIn p.name ".json" → ofPath? p.document.text = ofPath? p.text) ∧
      (∀ l, ofPath? p.text = some l ↔
        ∃ ext ∈ l.extensions, EndsIn p.name ext ∨ EndsIn p.name (ext ++ ".json")) ∧
      (EndsIn p.name ".json.json" → ofPath? p.text = none) := by
  have hnameless : ∀ path ∈ ["", "/", ".", ".."], fileName? path.toList = none := by decide
  refine ⟨fun path name => fileName?_eq_some_iff, fun path hpath => ?_, fun path hpath => ?_,
    fun p => ⟨fun above => ?_, fun trail => ?_, fun path hpath => ?_, ofPath?_document,
      ofPath?_text_eq_some_iff p, ofPath?_eq_none_of_json_json⟩⟩
  · rw [ofPath?, fileName?_eq_none_iff.2 hpath]
    rfl
  · exact fileName?_eq_none_iff.1 (hnameless path hpath)
  · refine ofPath?_congr ?_
    rw [p.fileName?_text]
    simpa using fileName?_above p.fileName?_text above.toList
  · exact ofPath?_congr (fileName?_append_trail p.text trail)
  · rw [← ofPath?_asciiLower path, hpath, ofPath?_asciiLower]

/-- An extension in capitals, behind a directory that is left again and in front of a dot. -/
def shoutedPath : NamedPath := ⟨some "rtl/..", "Top.VHD", [.dot, .slash], by decide⟩

/-- The long s and the second `.json` are no part of an ending. -/
theorem shoutedPath_by_extension :
    ofPath? "rtl/../Top.VHD/./" = some vhdl ∧ ofPath? "/a//rtl/../Top.VHD/./" = some vhdl ∧
      ofPath? "rtl/../Top.VHD/.//./" = some vhdl ∧ ofPath? "RTL/../tOP.vHd/./" = some vhdl ∧
      ofPath? "rtl/../Top.VHD.json/./" = some vhdl ∧ ofPath? "Top.VHD.jſon" = none ∧
      ofPath? "Top.VHD.Json.json" = none := by
  obtain ⟨-, -, -, hnamed⟩ := ofPath?_by_extension
  obtain ⟨habove, htrail, hletters, hdocument, hlanguage, -⟩ := hnamed shoutedPath
  have hvhdl : ofPath? shoutedPath.text = some vhdl :=
    (hlanguage vhdl).2 ⟨".vhd", by decide, .inl ((endsIn_iff (by decide)).2 (by decide))⟩
  have hjson : ¬EndsIn shoutedPath.name ".json" := mt EndsIn.suffix (by decide)
  have htext : shoutedPath.text = "rtl/../Top.VHD/./" := by decide
  have hlong : ofPath? "Top.VHD.jſon" = none := by
    obtain ⟨-, -, -, -, hlanguage, -⟩ := hnamed ⟨none, "Top.VHD.jſon", [], by decide⟩
    refine Option.eq_none_iff_forall_ne_some.2 fun l hl => ?_
    have hends : ∀ ext ∈ l.extensions,
        ¬ext.toList <:+ (asciiLower "Top.VHD.jſon").toList ∧
          ¬(ext ++ ".json").toList <:+ (asciiLower "Top.VHD.jſon").toList := by
      cases l <;> decide
    obtain ⟨ext, hext, hend | hend⟩ := (hlanguage l).1 hl
    · exact (hends ext hext).1 hend.suffix
    · exact (hends ext hext).2 hend.suffix
  have htwice : ofPath? "Top.VHD.Json.json" = none := by
    obtain ⟨-, -, -, -, -, htwice⟩ := hnamed ⟨none, "Top.VHD.Json.json", [], by decide⟩
    exact htwice ((endsIn_iff (by decide)).2 (by decide))
  refine ⟨?_, ?_, ?_, ?_, ?_, hlong, htwice⟩
  · rw [← htext, hvhdl]
  · have heq : "/a/" ++ "/" ++ shoutedPath.text = "/a//rtl/../Top.VHD/./" := by decide
    rw [← heq, habove, hvhdl]
  · have heq : shoutedPath.text ++ Trailer.texts [.dot, .slash] = "rtl/../Top.VHD/.//./" := by
      decide
    rw [← heq, htrail, hvhdl]
  · rw [hletters _ (by decide), hvhdl]
  · have heq : shoutedPath.document.text = "rtl/../Top.VHD.json/./" := by decide
    rw [← heq, hdocument hjson, hvhdl]

end Language

end HdlInterface
