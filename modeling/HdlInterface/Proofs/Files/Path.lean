import Mathlib.Tactic.SplitIfs
import HdlInterface.Files.Path

/-!
# Paths with a file name

A path has a file name exactly if that name stands in it behind nothing or a directory, and in front
of nothing but slashes and single dots (`fileName?_eq_some_iff`). What stands above the name and
what trails it may be changed (`fileName?_above`, `fileName?_append_trail`).
-/

namespace HdlInterface

/-! ## Parts -/

theorem pathParts_append_slash (s t : List Char) :
    pathParts (s ++ '/' :: t) = pathParts s ++ pathParts t := by
  induction s with
  | nil =>
    obtain ⟨part, parts, hparts⟩ := List.exists_cons_of_ne_nil (pathParts_ne_nil t)
    simp [pathParts, hparts]
  | cons c s ih =>
    obtain ⟨part, parts, hparts⟩ := List.exists_cons_of_ne_nil (pathParts_ne_nil s)
    rw [List.cons_append, pathParts, ih, pathParts, hparts]
    simp only [List.cons_append]
    split_ifs <;> rfl

theorem pathParts_of_notMem {s : List Char} (h : '/' ∉ s) : pathParts s = [s] := by
  induction s with
  | nil => rfl
  | cons c s ih =>
    obtain ⟨hc, hs⟩ := not_or.1 (mt List.mem_cons.2 h)
    rw [pathParts, ih hs]
    exact if_neg (Ne.symm hc)

theorem pathParts_map {f : Char → Char} (hf : ∀ c, f c = '/' ↔ c = '/') (s : List Char) :
    pathParts (s.map f) = (pathParts s).map (List.map f) := by
  induction s with
  | nil => rfl
  | cons c s ih =>
    obtain ⟨part, parts, hparts⟩ := List.exists_cons_of_ne_nil (pathParts_ne_nil s)
    rw [List.map_cons, pathParts, ih, pathParts, hparts]
    simp only [List.map_cons, hf]
    split_ifs <;> rfl

/-- A path is a last part, or has one behind its last slash. -/
theorem exists_last_part (path : List Char) :
    '/' ∉ path ∨ ∃ above last, path = above ++ '/' :: last ∧ '/' ∉ last := by
  induction path with
  | nil => exact .inl nofun
  | cons c path ih =>
    rcases ih with h | ⟨above, last, rfl, h⟩
    · by_cases hc : c = '/'
      · exact .inr ⟨[], path, by rw [hc]; rfl, h⟩
      · exact .inl (by simp [Ne.symm hc, h])
    · exact .inr ⟨c :: above, last, rfl, h⟩

/-! ## File names -/

theorem fileName?_above {path name : List Char} (h : fileName? path = some name)
    (above : List Char) : fileName? (above ++ '/' :: path) = some name := by
  unfold fileName? at h ⊢
  split at h
  next part hpart =>
    rw [pathParts_append_slash, List.filter_append, List.getLast?_append, hpart]
    exact h
  next => cases h

theorem fileName?_append_slash (path : List Char) {last : List Char} (h : '/' ∉ last) :
    fileName? (path ++ '/' :: last) =
      if last = [] ∨ last = ['.'] then fileName? path
      else if last = ['.', '.'] then none else some last := by
  rw [fileName?, pathParts_append_slash, pathParts_of_notMem h, List.filter_append,
    List.getLast?_append]
  by_cases hlast : last = [] ∨ last = ['.']
  · have hnone : [last].filter (fun part => part ≠ [] ∧ part ≠ ['.']) = [] := by
      rcases hlast with rfl | rfl <;> decide
    rw [hnone, if_pos hlast]
    rfl
  · have hsome : [last].filter (fun part => part ≠ [] ∧ part ≠ ['.']) = [last] := by
      simpa using not_or.1 hlast
    rw [hsome, if_neg hlast]
    rfl

/-- A path may as well start at the root. -/
theorem fileName?_slash (path : List Char) : fileName? ('/' :: path) = fileName? path := by
  have hparts : pathParts ('/' :: path) = [] :: pathParts path := pathParts_append_slash [] path
  simp [fileName?, hparts]

theorem fileName?_map {f : Char → Char} (hslash : ∀ c, f c = '/' ↔ c = '/')
    (hdot : ∀ c, f c = '.' ↔ c = '.') (path : List Char) :
    fileName? (path.map f) = (fileName? path).map (List.map f) := by
  have hpart : ∀ part : List Char, (part.map f = ['.'] ↔ part = ['.']) ∧
      (part.map f = ['.', '.'] ↔ part = ['.', '.']) := fun part => by
    simp [List.map_eq_cons_iff, hdot]
  have hcounts : ((pathParts path).map (List.map f)).filter (fun part => part ≠ [] ∧ part ≠ ['.']) =
      ((pathParts path).filter fun part => part ≠ [] ∧ part ≠ ['.']).map (List.map f) := by
    simp [List.filter_map, Function.comp_def, hpart]
  rw [fileName?, pathParts_map hslash, hcounts, List.getLast?_map, fileName?]
  cases ((pathParts path).filter fun part => part ≠ [] ∧ part ≠ ['.']).getLast? with
  | none => rfl
  | some part =>
    simp only [Option.map_some, hpart]
    split_ifs <;> rfl

/-! ## Paths made of a file name -/

/-- What may stand behind a file name. -/
inductive Trailer
  | slash
  | dot

namespace Trailer

def text : Trailer → String
  | slash => "/"
  | dot => "/."

/-- The texts of all, one after the other. -/
def texts (trail : List Trailer) : String := String.join (trail.map text)

end Trailer

/-- The text names an entry of a directory. -/
def IsFileName (name : String) : Prop :=
  name ≠ "" ∧ name ≠ "." ∧ name ≠ ".." ∧ '/' ∉ name.toList

instance (name : String) : Decidable (IsFileName name) := inferInstanceAs (Decidable (_ ∧ _))

theorem IsFileName.append {name ending : String} (h : IsFileName name)
    (hlong : 2 ≤ ending.toList.length) (hslash : '/' ∉ ending.toList) :
    IsFileName (name ++ ending) := by
  obtain ⟨hempty, -, -, hname⟩ := h
  have hpos : 0 < name.toList.length :=
    List.length_pos_iff.2 fun heq => hempty (String.toList_eq_nil_iff.1 heq)
  have hne : ∀ s : String, s.toList.length ≤ 2 → name ++ ending ≠ s := by
    rintro s hs rfl
    rw [String.toList_append, List.length_append] at hs
    omega
  refine ⟨hne _ (by decide), hne _ (by decide), hne _ (by decide), ?_⟩
  rw [String.toList_append, List.mem_append]
  exact not_or.2 ⟨hname, hslash⟩

/-- A path with a file name. -/
structure NamedPath where
  /-- the directory, if one is given -/
  above : Option String
  name : String
  trail : List Trailer
  isFileName : IsFileName name

namespace NamedPath

def text (p : NamedPath) : String :=
  p.above.elim "" (· ++ "/") ++ p.name ++ Trailer.texts p.trail

/-- The path with one more thing behind its file name. -/
def trailed (p : NamedPath) (t : Trailer) : NamedPath := { p with trail := p.trail ++ [t] }

theorem text_trailed (p : NamedPath) (t : Trailer) : (p.trailed t).text = p.text ++ t.text := by
  simp [trailed, text, Trailer.texts, String.append_assoc]

/-- The path to the document of the file, in the same place. -/
def document (p : NamedPath) : NamedPath :=
  { p with name := p.name ++ ".json", isFileName := p.isFileName.append (by decide) (by decide) }

end NamedPath

theorem fileName?_append_trail (path : String) (trail : List Trailer) :
    fileName? (path ++ Trailer.texts trail).toList = fileName? path.toList := by
  induction trail generalizing path with
  | nil => simp [Trailer.texts]
  | cons t trail ih =>
    have htexts : path ++ Trailer.texts (t :: trail) = path ++ t.text ++ Trailer.texts trail := by
      simp [Trailer.texts, String.append_assoc]
    have hlast : fileName? (path ++ t.text).toList = fileName? path.toList := by
      rw [String.toList_append]
      cases t with
      | slash => exact fileName?_append_slash _ (show '/' ∉ [] by decide)
      | dot => exact fileName?_append_slash _ (show '/' ∉ ['.'] by decide)
    rw [htexts, ih, hlast]

theorem fileName?_of_isFileName {name : String} (h : IsFileName name) :
    fileName? name.toList = some name.toList := by
  obtain ⟨hempty, hdot, hdots, hslash⟩ := h
  have hlast := fileName?_append_slash [] hslash
  rwa [List.nil_append, fileName?_slash, if_neg, if_neg] at hlast
  · exact fun heq => hdots (String.toList_injective heq)
  · rintro (heq | heq)
    · exact hempty (String.toList_injective heq)
    · exact hdot (String.toList_injective heq)

theorem NamedPath.fileName?_text (p : NamedPath) :
    fileName? p.text.toList = some p.name.toList := by
  rw [text, fileName?_append_trail]
  cases p.above with
  | none => simpa using fileName?_of_isFileName p.isFileName
  | some above => simpa using fileName?_above (fileName?_of_isFileName p.isFileName) above.toList

theorem isFileName_ofList {name : List Char} (hslash : '/' ∉ name)
    (hdot : ¬(name = [] ∨ name = ['.'])) (hdots : name ≠ ['.', '.']) :
    IsFileName (String.ofList name) := by
  have hne : ∀ {s : String}, name ≠ s.toList → String.ofList name ≠ s := fun h heq =>
    h (by rw [← heq, String.toList_ofList])
  exact ⟨hne (not_or.1 hdot).1, hne (not_or.1 hdot).2, hne hdots, by rwa [String.toList_ofList]⟩

theorem ofList_append_slash (s t : List Char) :
    String.ofList (s ++ '/' :: t) = String.ofList s ++ "/" ++ String.ofList t := by
  simp [String.ofList_append, String.append_assoc]

theorem exists_namedPath {path name : List Char} (h : fileName? path = some name) :
    ∃ p : NamedPath, p.text = String.ofList path ∧ p.name = String.ofList name := by
  induction hn : path.length using Nat.strongRecOn generalizing path with
  | ind n ih =>
    rcases exists_last_part path with hslash | ⟨above, last, rfl, hslash⟩
    · rw [← fileName?_slash, ← List.nil_append ('/' :: path), fileName?_append_slash _ hslash] at h
      split_ifs at h with hdot hdots
      · cases h
      · obtain rfl := Option.some.inj h
        exact ⟨⟨none, _, [], isFileName_ofList hslash hdot hdots⟩,
          by simp [NamedPath.text, Trailer.texts], rfl⟩
    · rw [fileName?_append_slash _ hslash] at h
      rw [ofList_append_slash]
      have hshort : above.length < n := by
        rw [← hn, List.length_append, List.length_cons]
        omega
      split_ifs at h with hdot hdots
      · obtain ⟨p, htext, hname⟩ := ih _ hshort h rfl
        rw [← htext]
        rcases hdot with rfl | rfl
        · exact ⟨p.trailed .slash, by simp [p.text_trailed, Trailer.text], hname⟩
        · exact ⟨p.trailed .dot, by simp [p.text_trailed, Trailer.text, String.append_assoc], hname⟩
      · obtain rfl := Option.some.inj h
        exact ⟨⟨some (String.ofList above), _, [], isFileName_ofList hslash hdot hdots⟩,
          by simp [NamedPath.text, Trailer.texts], rfl⟩

theorem fileName?_eq_some_iff {path name : String} :
    fileName? path.toList = some name.toList ↔
      ∃ p : NamedPath, p.text = path ∧ p.name = name := by
  constructor
  · intro h
    obtain ⟨p, htext, hname⟩ := exists_namedPath h
    exact ⟨p, by rw [htext, String.ofList_toList], by rw [hname, String.ofList_toList]⟩
  · rintro ⟨p, rfl, rfl⟩
    exact p.fileName?_text

theorem fileName?_eq_none_iff {path : String} :
    fileName? path.toList = none ↔ ¬∃ p : NamedPath, p.text = path := by
  constructor
  · rintro h ⟨p, rfl⟩
    rw [p.fileName?_text] at h
    cases h
  · intro h
    cases hname : fileName? path.toList with
    | none => rfl
    | some name =>
      obtain ⟨p, htext, -⟩ := exists_namedPath hname
      exact absurd ⟨p, by rw [htext, String.ofList_toList]⟩ h

end HdlInterface
