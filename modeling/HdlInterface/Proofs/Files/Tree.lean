import HdlInterface.Files.Tree
import HdlInterface.Proofs.Document.Field

/-!
# Writing into a tree

A text that is written is found again at its path, and all other places keep what they hold.
-/

namespace HdlInterface

namespace FileTree

variable {t : FileTree} {steps place above : List String} {name : String} {c : Content}

/-! ## Contents -/

/-- An entry in whose place a content is stored, if its steps lead to `place`. -/
def stored (place : List String) (c : Content) (e : List String × Content) :
    List String × Content :=
  if e.1 == place then (place, c) else e

theorem assign_eq : t.assign place c =
    if t.entries.any fun e => e.1 == place then ⟨t.entries.map (stored place c)⟩
    else ⟨t.entries ++ [(place, c)]⟩ := rfl

@[simp] theorem stored_steps (e : List String × Content) : (stored place c e).1 = e.1 := by
  unfold stored
  split_ifs with h
  · exact (beq_iff_eq.1 h).symm
  · rfl

theorem find?_assign_self :
    (t.assign place c).entries.find? (fun e => e.1 == place) = some (place, c) := by
  rw [assign_eq]
  split_ifs with hany
  · obtain ⟨e, he⟩ := Option.isSome_iff_exists.1 (List.find?_isSome.2 (List.any_eq_true.1 hany))
    simp only [List.find?_map, Function.comp_def, stored_steps, he, Option.map_some]
    exact congrArg some (if_pos (List.find?_some he))
  · have hnone : t.entries.find? (fun e => e.1 == place) = none :=
      List.find?_eq_none.2 fun e he hplace => hany (List.any_eq_true.2 ⟨e, he, hplace⟩)
    simp [List.find?_append, hnone]

theorem find?_assign_of_ne (h : steps ≠ place) :
    (t.assign place c).entries.find? (fun e => e.1 == steps) =
      t.entries.find? (fun e => e.1 == steps) := by
  rw [assign_eq]
  split_ifs
  · simp only [List.find?_map, Function.comp_def, stored_steps]
    cases he : t.entries.find? fun e => e.1 == steps with
    | none => rfl
    | some e =>
      have hsteps : e.1 = steps := by simpa using List.find?_some he
      exact congrArg some (if_neg fun hplace => h (hsteps.symm.trans (beq_iff_eq.1 hplace)))
  · simp [List.find?_append, h.symm]

/-- What is asked of the steps of an entry only. -/
theorem any_assign (p : List String → Bool) :
    ((t.assign place c).entries.any fun e => p e.1) =
      ((t.entries.any fun e => p e.1) || p place) := by
  rw [assign_eq]
  split_ifs with hany
  · obtain ⟨e, he, hplace⟩ := List.any_eq_true.1 hany
    have himplied : p place = true → (t.entries.any fun e => p e.1) = true := fun hp =>
      List.any_eq_true.2 ⟨e, he, by rwa [beq_iff_eq.1 hplace]⟩
    simp only [List.any_map, Function.comp_def, stored_steps]
    cases hp : p place
    · rw [Bool.or_false]
    · rw [himplied hp, Bool.or_true]
  · simp

theorem content?_assign_self : (t.assign place c).content? place = some c := by
  simp only [content?, find?_assign_self]

theorem isAscent_of_isPrefix (h : steps <+: above) (habove : isAscent above) :
    isAscent steps := by
  simp only [isAscent, Bool.or_eq_true, decide_eq_true_eq, List.all_eq_true] at habove ⊢
  obtain rfl | hall := habove
  · obtain rfl | ⟨rest, rfl⟩ : steps = [] ∨ ∃ rest, steps = "/" :: rest := by
      cases steps with
      | nil => exact .inl rfl
      | cons step rest => exact .inr ⟨rest, by rw [(List.cons_prefix_cons.1 h).1]⟩
    · exact .inr nofun
    · exact .inl (by rw [List.prefix_nil.1 (List.cons_prefix_cons.1 h).2])
  · exact .inr fun step hstep => hall step (h.subset hstep)

/-- Whatever leads to a known place is a directory, or an entry. -/
theorem isAscent_or_any_of_isPrefix (h : steps <+: above) (habove : (t.content? above).isSome) :
    isAscent steps ∨ (t.entries.any fun e => steps.isPrefixOf e.1) = true := by
  have hwiden : (∃ e ∈ t.entries, above <+: e.1) →
      (t.entries.any fun e => steps.isPrefixOf e.1) = true := fun ⟨e, he, hprefix⟩ =>
    List.any_eq_true.2 ⟨e, he, List.isPrefixOf_iff_prefix.2 (h.trans hprefix)⟩
  unfold content? at habove
  split at habove
  next e he =>
    have hkey : e.1 = above := by simpa using List.find?_some he
    exact .inr (hwiden ⟨e, List.mem_of_find?_eq_some he, hkey ▸ List.prefix_rfl⟩)
  next =>
    split at habove
    next hcase =>
      refine hcase.imp (isAscent_of_isPrefix h) fun hany => hwiden ?_
      obtain ⟨e, he, hprefix⟩ := List.any_eq_true.1 hany
      exact ⟨e, he, List.isPrefixOf_iff_prefix.1 hprefix⟩
    next => simp at habove

/-- A new entry below a known place makes nothing else known. -/
theorem content?_assign_of_ne (habove : (t.content? above).isSome) (h : steps ≠ above ++ [name]) :
    (t.assign (above ++ [name]) c).content? steps = t.content? steps := by
  have hknown : steps.isPrefixOf (above ++ [name]) = true →
      isAscent steps ∨ (t.entries.any fun e => steps.isPrefixOf e.1) = true := fun hprefix => by
    obtain hself | hprefix := List.prefix_concat_iff.1 (List.isPrefixOf_iff_prefix.1 hprefix)
    · exact absurd hself h
    · exact isAscent_or_any_of_isPrefix hprefix habove
  simp only [content?, find?_assign_of_ne h, any_assign, Bool.or_eq_true]
  split
  · rfl
  · refine if_congr ?_ rfl rfl
    exact ⟨fun hcase => hcase.elim .inl (Or.elim · .inr hknown), fun hcase => hcase.imp_right .inl⟩

/-! ## Paths -/

/-- What is known of a tree stays known in a tree that keeps its directories. -/
theorem enter_of_keeps {u : FileTree} {part : String}
    (hdirectory : ∀ s, t.content? s = some .directory → u.content? s = some .directory)
    (hknown : ∀ s, (t.content? s).isSome → (u.content? s).isSome)
    (h : t.enter steps part = .ok place) : u.enter steps part = .ok place := by
  unfold enter at h ⊢
  split at h
  next => cases h
  next => cases h
  next hsteps =>
    rw [hdirectory _ hsteps]
    dsimp only
    split_ifs at h ⊢ with _ _ _ hunknown
    · exact h
    · exact h
    · exact h
    · rename_i hentry
      exact absurd (hknown _ hentry) hunknown

theorem foldlM_enter_of_keeps {u : FileTree} {parts : List String}
    (hdirectory : ∀ s, t.content? s = some .directory → u.content? s = some .directory)
    (hknown : ∀ s, (t.content? s).isSome → (u.content? s).isSome)
    (h : parts.foldlM t.enter steps = .ok place) : parts.foldlM u.enter steps = .ok place := by
  induction parts generalizing steps with
  | nil => exact h
  | cons part parts ih =>
    rw [List.foldlM_cons, bind_eq_ok_iff] at h
    obtain ⟨next, hnext, hrest⟩ := h
    rw [List.foldlM_cons, enter_of_keeps hdirectory hknown hnext]
    exact ih hrest

/-- Nothing is followed from what is no directory. -/
theorem enter_empty_eq_ok_iff :
    t.enter steps "" = .ok place ↔ t.content? steps = some .directory ∧ steps = place := by
  unfold enter
  split
  next h => simp [h]
  next h => simp [h]
  next h => simp [h]

theorem enter_name (hsteps : t.content? steps = some .directory) (hempty : name ≠ "")
    (hdot : name ≠ ".") (hdots : name ≠ "..") (hlength : name.utf8ByteSize ≤ nameLimit)
    (hentry : (t.content? (steps ++ [name])).isSome) :
    t.enter steps name = .ok (steps ++ [name]) := by
  simp only [enter, hsteps, hempty, hdot, hdots, or_self, if_false, if_neg (Nat.not_lt.2 hlength),
    if_pos hentry]

/-! ## Writing -/

theorem splitLast_eq {parts before : List String}
    (h : splitLast parts = (before, some name, false)) : parts = before ++ [name] ∧ name ≠ "" := by
  simp only [splitLast, Prod.mk.injEq, decide_eq_false_iff_not] at h
  obtain ⟨rfl, hlast, hlength⟩ := h
  have hkept : parts.reverse.dropWhile (· = "") = parts.reverse :=
    (List.dropWhile_suffix _).eq_of_length_le (by simpa using hlength)
  have hname := List.head?_dropWhile_not (fun part => decide (part = "")) parts.reverse
  rw [List.getLast?_reverse] at hlast
  rw [hlast] at hname
  rw [hkept, List.head?_reverse] at hlast
  rw [hkept, List.reverse_reverse, List.dropLast_append_getLast? name hlast]
  exact ⟨rfl, by simpa using hname⟩

/-- What a text that is written leads to: an entry of a directory that is there, and no directory
itself. -/
theorem write_eq_ok {path text : String} {u : FileTree} (h : t.write path text = .ok u) :
    ∃ first before above name, start path = .ok (first, before ++ [name]) ∧
      before.foldlM t.enter first = .ok above ∧ t.content? above = some .directory ∧
      (name ≠ "" ∧ name ≠ "." ∧ name ≠ ".." ∧ name.utf8ByteSize ≤ nameLimit) ∧
      t.content? (above ++ [name]) ≠ some .directory ∧
      u = t.assign (above ++ [name]) (.file text.toUTF8) := by
  simp only [write, bind_eq_ok_iff] at h
  obtain ⟨⟨first, parts⟩, hstart, h⟩ := h
  rcases hsplit : splitLast parts with ⟨before, last, slash⟩
  simp only [hsplit] at h
  obtain ⟨above, hfold, _, hempty, h⟩ := h
  obtain ⟨habove, rfl⟩ := enter_empty_eq_ok_iff.1 hempty
  cases last with
  | none => cases h
  | some name =>
    dsimp only at h
    split_ifs at h with hdots hlength
    simp only [not_or, Bool.not_eq_true] at hdots
    obtain ⟨rfl, hdot, hdots⟩ := hdots
    obtain ⟨rfl, hempty⟩ := splitLast_eq hsplit
    refine ⟨first, before, above, name, hstart, hfold, habove,
      ⟨hempty, hdot, hdots, Nat.not_lt.1 hlength⟩, ?_⟩
    split at h
    next => cases h
    next hcontent => exact ⟨hcontent, (Except.ok.inj h).symm⟩

theorem fromUTF8?_toUTF8 (text : String) : String.fromUTF8? text.toUTF8 = some text :=
  dif_pos text.isValidUTF8

/-- A text that is written is at the place its path leads to, where it is read again, and no other
place holds anything else than before. -/
theorem frame_of_write {path text : String} {u : FileTree} (h : t.write path text = .ok u) :
    (∃ place, u.locate path = .ok place ∧ u.content? place = some (.file text.toUTF8) ∧
      ∀ steps, steps ≠ place → u.content? steps = t.content? steps) ∧
    u.read path = .ok text := by
  obtain ⟨first, before, above, name, hstart, hfold, habove, ⟨hempty, hdot, hdots, hlength⟩,
    hcontent, hu⟩ := write_eq_ok h
  have hself : u.content? (above ++ [name]) = some (.file text.toUTF8) :=
    hu ▸ content?_assign_self
  have hother : ∀ steps, steps ≠ above ++ [name] → u.content? steps = t.content? steps :=
    fun steps hsteps => hu ▸ content?_assign_of_ne (by rw [habove]; rfl) hsteps
  have hdirectory : ∀ s, t.content? s = some .directory → u.content? s = some .directory :=
    fun s hs => (hother s fun hplace => hcontent (hplace ▸ hs)).trans hs
  have hknown : ∀ s, (t.content? s).isSome → (u.content? s).isSome := fun s hs => by
    by_cases hplace : s = above ++ [name]
    · rw [hplace, hself]
      rfl
    · rwa [hother s hplace]
  have hlocate : u.locate path = .ok (above ++ [name]) := by
    simp only [locate, hstart, ok_bind, List.foldlM_append, List.foldlM_cons, List.foldlM_nil,
      foldlM_enter_of_keeps hdirectory hknown hfold]
    rw [enter_name (hdirectory above habove) hempty hdot hdots hlength (by rw [hself]; rfl)]
    rfl
  refine ⟨⟨_, hlocate, hself, hother⟩, ?_⟩
  simp only [read, hlocate, ok_bind, hself, fromUTF8?_toUTF8]
  rfl

end FileTree

end HdlInterface
