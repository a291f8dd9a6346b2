import HdlInterface.Proofs.Json.Spaces

/-!
# Layout

The compact and the indented text of a value differ in nothing but layout. Whatever the layout, the
text of a value is its compact text with spaces outside strings, and each line is indented by the
number of containers that are open (`Json.spaced_write`, by induction on the value). A value inside
others is written as on its own, only further in (`Json.foundAt_write`), so an empty container is
written with nothing inside wherever it stands. `Fields.toText_layouts` says this of the texts of
an object.
-/

namespace HdlInterface

open Cursor

/-! ## Values -/

namespace Json

variable {v : Json}

theorem isPlain_of_isDigit {c : Char} (h : c.isDigit = true ∨ c = '-') :
    Spaced.isPlain c = true := by
  rcases h with h | rfl
  · exact of_isDigit (p := fun c => Spaced.isPlain c = true) (by decide) h
  · rfl

theorem isPlain_of_mem_writeInt {n : Int} {c : Char} (h : c ∈ writeInt n) :
    Spaced.isPlain c = true := by
  have hdigit : ∀ c ∈ Nat.toDigits 10 n.natAbs, c.isDigit = true := fun _ hc =>
    Nat.isDigit_of_mem_toDigits (by decide) (by decide) hc
  unfold writeInt at h
  split_ifs at h
  · rcases List.mem_cons.1 h with rfl | h
    · rfl
    · exact isPlain_of_isDigit (.inl (hdigit c h))
  · exact isPlain_of_isDigit (.inl (hdigit c h))

/-- A value begins with no space and no closing bracket. -/
theorem exists_write_eq_cons_of_integral (layout : Layout) (level : Nat) (hv : v.Integral) :
    ∃ c s, v.write layout level = c :: s ∧ isSpace c = false ∧ closes c = false := by
  obtain ⟨c, s, hcons, hblank, hbracket, hbrace⟩ := exists_write_eq_cons layout level hv
  refine ⟨c, s, hcons, ?_, by simp [closes, hbracket, hbrace]⟩
  cases hspace : isSpace c with
  | false => rfl
  | true =>
    rcases isSpace_iff.1 hspace with rfl | rfl <;> cases hblank

mutual

theorem spaced_write (layout : Layout) : (v : Json) → v.Integral → ∀ level j : Nat,
    Spaced layout ⟨.outside, level⟩ (v.write layout level) (v.write .compact j) ⟨.outside, level⟩
  | null, _, _, _ => .plain (List.all_eq_true.1 rfl)
  | bool true, _, _, _ => .plain (List.all_eq_true.1 rfl)
  | bool false, _, _, _ => .plain (List.all_eq_true.1 rfl)
  | number (.integer n), _, _, _ => .plain fun _ => isPlain_of_mem_writeInt
  | number (.double _), hv, _, _ => by cases hv
  | string s, _, _, _ => .quoted s.toList
  | array [], _, _, _ => .empty rfl
  | array (v :: items), hv, level, j => by
    have hparts := (all_array.1 hv).2
    obtain ⟨c, s, hcons, hspace, hcloses⟩ :=
      exists_write_eq_cons_of_integral layout (level + 1) (hparts v List.mem_cons_self)
    have htext : writeItems layout (level + 1) true (v :: items) =
        layout.lineBreak (level + 1) ++ c :: (s ++ writeItems layout (level + 1) false items) := by
      rw [writeItems_cons, hcons]
      rfl
    exact Spaced.container rfl htext hspace hcloses
      (spaced_writeItems layout (v :: items) hparts true (level + 1) (j + 1))
  | object [], _, _, _ => .empty rfl
  | object (f :: m), hv, level, j => by
    have htext : writeFields layout (level + 1) true (f :: m) = layout.lineBreak (level + 1) ++
        '"' :: (f.1.toList.flatMap Quoted.escape ++ '"' :: (layout.colon ++
          (f.2.write layout (level + 1) ++ writeFields layout (level + 1) false m))) := by
      rw [writeFields_cons, Quoted.write_append]
    exact Spaced.container rfl htext rfl rfl
      (spaced_writeFields layout (f :: m) (all_object.1 hv).2 true (level + 1) (j + 1))

theorem spaced_writeItems (layout : Layout) : (items : List Json) → (∀ v ∈ items, v.Integral) →
    ∀ (first : Bool) (level j : Nat), Spaced layout ⟨.outside, level⟩
      (writeItems layout level first items) (writeItems .compact j first items) ⟨.outside, level⟩
  | [], _, _, _, _ => .nil
  | v :: items, hitems, first, level, j => by
    obtain ⟨hv, hrest⟩ := List.forall_mem_cons.1 hitems
    have hline : Spaced layout ⟨.outside, level⟩ (writeItems layout level true (v :: items))
        (writeItems .compact j true (v :: items)) ⟨.outside, level⟩ := by
      have hvalue := (spaced_write layout v hv level j).append
        (spaced_writeItems layout items hrest false level j)
      obtain ⟨c, s, hcons, hspace, hcloses⟩ := exists_write_eq_cons_of_integral layout level hv
      rw [writeItems_cons, writeItems_cons, hcons]
      rw [hcons] at hvalue
      exact .line (by simp [Cursor.level, hcloses]) hspace hvalue
    cases first with
    | true => exact hline
    | false => exact .cons (fun _ => rfl) (.of_ne (by decide) fun _ => rfl) hline

theorem spaced_writeFields (layout : Layout) : (m : List (String × Json)) →
    (∀ f ∈ m, f.2.Integral) → ∀ (first : Bool) (level j : Nat), Spaced layout ⟨.outside, level⟩
      (writeFields layout level first m) (writeFields .compact j first m) ⟨.outside, level⟩
  | [], _, _, _, _ => .nil
  | (key, v) :: m, hfields, first, level, j => by
    obtain ⟨hv, hrest⟩ := List.forall_mem_cons.1 hfields
    have hline : Spaced layout ⟨.outside, level⟩ (writeFields layout level true ((key, v) :: m))
        (writeFields .compact j true ((key, v) :: m)) ⟨.outside, level⟩ := by
      have hfield := (Spaced.quoted key.toList).append (Spaced.colon.append
        ((spaced_write layout v hv level j).append
          (spaced_writeFields layout m hrest false level j)))
      rw [writeFields_cons, writeFields_cons]
      exact .line rfl rfl hfield
    cases first with
    | true => exact hline
    | false => exact .cons (fun _ => rfl) (.of_ne (by decide) fun _ => rfl) hline

end

/-! ## Values inside others -/

/-- The value `x` stands inside so many arrays and objects of a value. -/
inductive Within (x : Json) : Nat → Json → Prop
  | self : Within x 0 x
  | item {k : Nat} {v : Json} {items : List Json} :
      v ∈ items → Within x k v → Within x (k + 1) (array items)
  | field {k : Nat} {f : String × Json} {m : List (String × Json)} :
      f ∈ m → Within x k f.2 → Within x (k + 1) (object m)

/-- Where a text stands in a longer one that is read from level `k` on, and at which level. -/
def FoundAt (k n : Nat) (part text : List Char) : Prop :=
  ∃ before rest, text = before ++ (part ++ rest) ∧
    (Cursor.mk .outside k).after before = ⟨.outside, n⟩

theorem foundAt_front (k : Nat) (part rest : List Char) : FoundAt k k part (part ++ rest) :=
  ⟨[], rest, rfl, rfl⟩

theorem foundAt_behind {k n : Nat} {before : List Char}
    (h : (Cursor.mk .outside k).after before = ⟨.outside, n⟩) (part : List Char) :
    FoundAt k n part (before ++ part) :=
  ⟨before, [], by rw [List.append_nil], h⟩

theorem FoundAt.trans {k n n' : Nat} {part inner text : List Char} (h : FoundAt k n inner text)
    (h' : FoundAt n n' part inner) : FoundAt k n' part text := by
  obtain ⟨before, rest, rfl, hafter⟩ := h
  obtain ⟨before', rest', rfl, hafter'⟩ := h'
  exact ⟨before ++ before', rest' ++ rest, by simp, by rw [after_append, hafter, hafter']⟩

theorem after_lineBreak (layout : Layout) (n k : Nat) :
    (Cursor.mk .outside k).after (layout.lineBreak n) = ⟨.outside, k⟩ := by
  cases layout with
  | compact => rfl
  | indented width =>
    have hnil : Spaced .compact ⟨.outside, k⟩ [] [] ⟨.outside, k⟩ := .nil
    have hspaces := (hnil.spaces (width * n)).after
    rwa [List.append_nil] at hspaces

theorem after_separator (layout : Layout) (first : Bool) (level : Nat) :
    (Cursor.mk .outside level).after ((if first then [] else [',']) ++ layout.lineBreak level) =
      ⟨.outside, level⟩ := by
  cases first <;> exact after_lineBreak layout level level

theorem foundAt_writeItems (layout : Layout) {items : List Json} (hitems : ∀ v ∈ items, v.Integral)
    (hv : v ∈ items) (first : Bool) (level : Nat) :
    FoundAt level level (v.write layout level) (writeItems layout level first items) := by
  induction items generalizing first with
  | nil => cases hv
  | cons u items ih =>
    obtain ⟨hu, hrest⟩ := List.forall_mem_cons.1 hitems
    rw [writeItems, List.append_assoc]
    refine (foundAt_behind (after_separator layout first level) _).trans ?_
    rcases List.mem_cons.1 hv with rfl | hv
    · exact foundAt_front level _ _
    · exact (foundAt_behind (spaced_write layout u hu level 0).after _).trans (ih hrest hv false)

theorem foundAt_writeFields (layout : Layout) {m : Fields} (hm : ∀ f ∈ m, f.2.Integral)
    {f : String × Json} (hf : f ∈ m) (first : Bool) (level : Nat) :
    FoundAt level level (f.2.write layout level) (writeFields layout level first m) := by
  induction m generalizing first with
  | nil => cases hf
  | cons g m ih =>
    obtain ⟨hg, hrest⟩ := List.forall_mem_cons.1 hm
    have hkey : (Cursor.mk .outside level).after (Quoted.write g.1.toList ++ layout.colon) =
        ⟨.outside, level⟩ :=
      ((Spaced.quoted g.1.toList).append Spaced.colon).after
    have htext : writeFields layout level first (g :: m) =
        ((if first then [] else [',']) ++ layout.lineBreak level) ++
          ((Quoted.write g.1.toList ++ layout.colon) ++
            (g.2.write layout level ++ writeFields layout level false m)) := by
      simp [writeFields]
    rw [htext]
    refine ((foundAt_behind (after_separator layout first level) _).trans
      (foundAt_behind hkey _)).trans ?_
    rcases List.mem_cons.1 hf with rfl | hf
    · exact foundAt_front level _ _
    · exact (foundAt_behind (spaced_write layout g.2 hg level 0).after _).trans (ih hrest hf false)

/-- A value inside others is written as on its own, at its level. -/
theorem foundAt_write (layout : Layout) {x : Json} {k : Nat} (h : Within x k v) (hv : v.Integral)
    (level : Nat) :
    FoundAt level (level + k) (x.write layout (level + k)) (v.write layout level) := by
  induction h generalizing level with
  | self => exact ⟨[], [], by simp, rfl⟩
  | @item k v items hmem _ ih =>
    have hparts := (all_array.1 hv).2
    have htext : (array items).write layout level = ['['] ++
        (writeItems layout (level + 1) true items ++ (layout.lineBreak level ++ [']'])) := by
      cases items with
      | nil => cases hmem
      | cons v items => simp [write]
    have hbracket : (Cursor.mk .outside level).after ['['] = ⟨.outside, level + 1⟩ := rfl
    have hfound := ih (hparts v hmem) (level + 1)
    rw [Nat.add_assoc, Nat.add_comm 1 k] at hfound
    rw [htext]
    exact (((foundAt_behind hbracket _).trans (foundAt_front _ _ _)).trans
      (foundAt_writeItems layout hparts hmem true (level + 1))).trans hfound
  | @field k f m hmem _ ih =>
    have hparts := (all_object.1 hv).2
    have htext : (object m).write layout level = ['{'] ++
        (writeFields layout (level + 1) true m ++ (layout.lineBreak level ++ ['}'])) := by
      cases m with
      | nil => cases hmem
      | cons f m => simp [write]
    have hbrace : (Cursor.mk .outside level).after ['{'] = ⟨.outside, level + 1⟩ := rfl
    have hfound := ih (hparts f hmem) (level + 1)
    rw [Nat.add_assoc, Nat.add_comm 1 k] at hfound
    rw [htext]
    exact (((foundAt_behind hbrace _).trans (foundAt_front _ _ _)).trans
      (foundAt_writeFields layout hparts hmem true (level + 1))).trans hfound

end Json

/-! ## Both layouts -/

theorem isSpace_eq_false_iff {c : Char} : isSpace c = false ↔ c ≠ ' ' ∧ c ≠ '\n' := by
  rw [← Bool.not_eq_true, isSpace_iff, not_or]

open Json

/-- The layouts of an object differ in spaces and line breaks outside strings and in nothing else.
An indented text has its line breaks outside strings, each in front of a line that is indented by
its level. Empty containers are written with nothing inside; behind the opening bracket of any other
a new line begins, which is not the closing one. -/
theorem Fields.toText_layouts (m : Fields) (hm : (Json.object m).Integral) (width : Nat) :
    let text := (m.toText (.indented width)).toList
    unspaced .start text = (m.toText .compact).toList ∧
    (∀ before rest, text = before ++ '\n' :: rest →
      (Cursor.start.after before).place = .outside ∧ ∃ c tail,
        rest = List.replicate (width * (Cursor.start.after before).level c) ' ' ++ c :: tail ∧
          c ≠ ' ' ∧ c ≠ '\n') ∧
    (∀ k, Within (.array []) k (.object m) → ∃ before rest,
      text = before ++ '[' :: ']' :: rest ∧ Cursor.start.after before = ⟨.outside, k⟩) ∧
    (∀ k, Within (.object []) k (.object m) → ∃ before rest,
      text = before ++ '{' :: '}' :: rest ∧ Cursor.start.after before = ⟨.outside, k⟩) ∧
    ∀ before c rest, text = before ++ c :: rest → (Cursor.start.after before).place = .outside →
      opens c = true → ∃ d tail, (rest = d :: tail ∧ d = partner c) ∨
        (rest = '\n' :: List.replicate (width * ((Cursor.start.after before).opened + 1)) ' ' ++
          d :: tail ∧ d ≠ ' ' ∧ d ≠ '\n' ∧ closes d = false) := by
  intro text
  have htext : ∀ layout, (m.toText layout).toList = (Json.object m).write layout 0 :=
    fun _ => String.toList_ofList
  obtain ⟨-, hunspaced, hlaid⟩ := spaced_write (.indented width) (.object m) hm 0 0
  have hfound : ∀ {x : Json} {k : Nat}, Within x k (.object m) →
      FoundAt 0 k (x.write (.indented width) k) text := fun h => by
    have := foundAt_write (.indented width) h hm 0
    rwa [Nat.zero_add, ← htext] at this
  rw [← htext] at hunspaced hlaid
  refine ⟨by rw [htext .compact, ← hunspaced]; rfl, fun before rest h => ?_, fun k h => hfound h,
    fun k h => hfound h, fun before c rest h hplace hopens => ?_⟩
  · obtain ⟨hplace, c, tail, hrest, hspace⟩ := (hlaid before '\n' rest h).lineBreak rfl
    exact ⟨hplace, c, tail, (List.cons.inj hrest).2, isSpace_eq_false_iff.1 hspace⟩
  · obtain ⟨d, tail, hpartner | ⟨hrest, hspace, hcloses⟩⟩ :=
      (hlaid before c rest h).opening hopens hplace
    · exact ⟨d, tail, .inl hpartner⟩
    · obtain ⟨hd, hbreak⟩ := isSpace_eq_false_iff.1 hspace
      exact ⟨d, tail, .inr ⟨hrest, hd, hbreak, hcloses⟩⟩

/-- Brackets and a line break in strings, and empty containers two levels deep. -/
def bracketedFields : Fields :=
  [("a [\n", .array [.object [("\"\x7b ", .string "] \\")], .array [], .object []]),
    ("b", .array [])]

theorem bracketedFields_toText_layouts :
    (Json.object bracketedFields).Integral ∧
      unspaced .start (bracketedFields.toText (.indented 0)).toList =
        "\x7b\"a [\\n\":[\x7b\"\\\"\x7b \":\"] \\\\\"\x7d,[],\x7b\x7d],\"b\":[]\x7d".toList ∧
      ∃ before rest, (bracketedFields.toText (.indented 3)).toList = before ++ '[' :: ']' :: rest ∧
        Cursor.start.after before = ⟨.outside, 2⟩ := by
  have hintegral : (Json.object bracketedFields).Integral := by decide
  have hempty : Within (.array []) 2 (.object bracketedFields) :=
    .field (f := ("a [\n", _)) List.mem_cons_self (.item (by simp) .self)
  refine ⟨hintegral, ?_, ?_⟩
  · exact (Fields.toText_layouts bracketedFields hintegral 0).1.trans (by decide)
  · exact (Fields.toText_layouts bracketedFields hintegral 3).2.2.1 2 hempty

end HdlInterface
