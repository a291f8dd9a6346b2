import HdlInterface.Proofs.Json.ReadBack

/-!
# Spaces of a text

A text is read from its start to its end by a cursor that knows whether it stands inside a string
and how many arrays and objects are open. With it the spaces and line breaks that are layout can be
told from those that are content: `unspaced` leaves out the former, and `Laid` says how they are
laid out. `Spaced` is both at once for a piece of a text, with a rule for each way in which the
writer puts pieces together.
-/

namespace HdlInterface

/-! ## Places of a text -/

/-- Where a place stands to the strings of its text. -/
inductive Quoting
  | outside
  | inside
  /-- behind a backslash -/
  | escaped
deriving DecidableEq

/-- What a reader of a text knows at a place of it. -/
structure Cursor where
  place : Quoting
  /-- the number of arrays and objects that are open -/
  opened : Nat

namespace Cursor

def start : Cursor := ⟨.outside, 0⟩

def opens (c : Char) : Bool := c = '[' || c = '{'

def closes (c : Char) : Bool := c = ']' || c = '}'

theorem opens_iff {c : Char} : opens c = true ↔ c = '[' ∨ c = '{' := by
  simp [opens]

theorem closes_iff {c : Char} : closes c = true ↔ c = ']' ∨ c = '}' := by
  simp [closes]

/-- The closing bracket of an opening one. -/
def partner (c : Char) : Char := if c = '[' then ']' else '}'

/-- The place behind one more character. -/
def next (r : Cursor) (c : Char) : Cursor :=
  match r.place with
  | .outside =>
      if c = '"' then ⟨.inside, r.opened⟩
      else if opens c then ⟨.outside, r.opened + 1⟩
      else if closes c then ⟨.outside, r.opened - 1⟩
      else r
  | .inside =>
      if c = '"' then ⟨.outside, r.opened⟩
      else if c = '\\' then ⟨.escaped, r.opened⟩
      else r
  | .escaped => ⟨.inside, r.opened⟩

/-- The place behind a text. -/
def after (r : Cursor) (s : List Char) : Cursor := s.foldl next r

theorem after_append (r : Cursor) (s t : List Char) : r.after (s ++ t) = (r.after s).after t :=
  List.foldl_append

/-- The level of a line that begins with `c`: a closing bracket does not count what it closes. -/
def level (r : Cursor) (c : Char) : Nat := if closes c then r.opened - 1 else r.opened

end Cursor

open Cursor

/-! ## Spaces -/

def isSpace (c : Char) : Bool := c = ' ' || c = '\n'

theorem isSpace_iff {c : Char} : isSpace c = true ↔ c = ' ' ∨ c = '\n' := by
  simp [isSpace]

/-- The text without the spaces and line breaks outside strings. -/
def unspaced (r : Cursor) : List Char → List Char
  | [] => []
  | c :: s => (if r.place = .outside ∧ isSpace c then [] else [c]) ++ unspaced (r.next c) s

theorem unspaced_append (r : Cursor) (s t : List Char) :
    unspaced r (s ++ t) = unspaced r s ++ unspaced (r.after s) t := by
  induction s generalizing r with
  | nil => rfl
  | cons c s ih => rw [List.cons_append, unspaced, unspaced, ih, List.append_assoc]; rfl

/-- A condition on every character of a text, at its place and with what follows it. -/
def Everywhere (p : Cursor → Char → List Char → Prop) (r : Cursor) (s : List Char) : Prop :=
  ∀ before c rest, s = before ++ c :: rest → p (r.after before) c rest

section

variable {p : Cursor → Char → List Char → Prop} {r : Cursor}

theorem everywhere_nil : Everywhere p r [] := by
  intro before c rest h
  cases before <;> cases h

theorem everywhere_cons {c : Char} {s : List Char} (hc : p r c s) (hs : Everywhere p (r.next c) s) :
    Everywhere p r (c :: s) := by
  intro before d rest h
  cases before with
  | nil =>
    obtain ⟨rfl, rfl⟩ := List.cons.inj h
    exact hc
  | cons b before =>
    obtain ⟨rfl, hrest⟩ := List.cons.inj h
    exact hs before d rest hrest

theorem Everywhere.append (hp : ∀ r c s t, p r c s → p r c (s ++ t)) {s t : List Char}
    (hs : Everywhere p r s) (ht : Everywhere p (r.after s) t) : Everywhere p r (s ++ t) := by
  induction s generalizing r with
  | nil => exact ht
  | cons c s ih =>
    refine everywhere_cons (hp _ _ _ _ (hs [] c s rfl)) (ih (fun before d rest h => ?_) ht)
    exact hs (c :: before) d rest (by rw [h]; rfl)

end

/-- Line breaks stand outside strings, and lines are indented by their level. What follows an
opening bracket is its partner or a line that does not begin with a closing bracket. -/
structure Laid (layout : Layout) (r : Cursor) (c : Char) (rest : List Char) : Prop where
  lineBreak : c = '\n' → r.place = .outside ∧ ∃ d tail,
    c :: rest = layout.lineBreak (r.level d) ++ d :: tail ∧ isSpace d = false
  opening : opens c → r.place = .outside → ∃ d tail,
    rest = d :: tail ∧ d = partner c ∨
      rest = layout.lineBreak (r.opened + 1) ++ d :: tail ∧ isSpace d = false ∧ closes d = false

namespace Laid

variable {layout : Layout} {r : Cursor} {c : Char} {rest : List Char}

theorem append (h : Laid layout r c rest) (t : List Char) : Laid layout r c (rest ++ t) := by
  constructor
  · intro hc
    obtain ⟨hplace, d, tail, heq, hd⟩ := h.lineBreak hc
    exact ⟨hplace, d, tail ++ t, by rw [← List.cons_append, heq, List.append_assoc]; rfl, hd⟩
  · intro hc hplace
    obtain ⟨d, tail, ⟨rfl, hd⟩ | ⟨rfl, hd⟩⟩ := h.opening hc hplace
    · exact ⟨d, tail ++ t, .inl ⟨rfl, hd⟩⟩
    · exact ⟨d, tail ++ t, .inr ⟨by rw [List.append_assoc]; rfl, hd⟩⟩

/-- Of most characters nothing is asked. -/
theorem of_ne (hbreak : c ≠ '\n') (hopens : r.place = .outside → opens c = false) :
    Laid layout r c rest where
  lineBreak h := absurd h hbreak
  opening h hplace := by
    rw [hopens hplace] at h
    cases h

end Laid

/-- Read from `r` to `r'`, the text `s` is `t` with spaces in it, and laid out. -/
structure Spaced (layout : Layout) (r : Cursor) (s t : List Char) (r' : Cursor) : Prop where
  after : r.after s = r'
  unspaced : unspaced r s = t
  laid : Everywhere (Laid layout) r s

namespace Spaced

variable {layout : Layout} {r r' r'' : Cursor} {s s' t t' : List Char} {c : Char} {k : Nat}

theorem nil : Spaced layout r [] [] r := ⟨rfl, rfl, everywhere_nil⟩

theorem append (h : Spaced layout r s t r') (h' : Spaced layout r' s' t' r'') :
    Spaced layout r (s ++ s') (t ++ t') r'' := by
  obtain ⟨rfl, rfl, hlaid⟩ := h
  obtain ⟨rfl, rfl, hlaid'⟩ := h'
  exact ⟨after_append r s s', unspaced_append r s s',
    hlaid.append (fun _ _ _ t h => h.append t) hlaid'⟩

/-- A character that is no space. -/
theorem cons (hspace : r.place = .outside → isSpace c = false) (hlaid : Laid layout r c s)
    (h : Spaced layout (r.next c) s t r') : Spaced layout r (c :: s) (c :: t) r' := by
  obtain ⟨rfl, rfl, hs⟩ := h
  have hkept : ¬(r.place = .outside ∧ isSpace c = true) := fun hspaced =>
    Bool.eq_false_iff.1 (hspace hspaced.1) hspaced.2
  exact ⟨rfl, by rw [HdlInterface.unspaced, if_neg hkept]; rfl, everywhere_cons hlaid hs⟩

/-- A character inside a string. -/
theorem cons_quoted (hplace : r.place ≠ .outside) (hbreak : c ≠ '\n')
    (h : Spaced layout (r.next c) s t r') : Spaced layout r (c :: s) (c :: t) r' :=
  cons (fun houtside => absurd houtside hplace)
    (.of_ne hbreak fun houtside => absurd houtside hplace) h

/-! ### Outside strings -/

/-- A character with no meaning for where strings and containers begin and end. -/
def isPlain (c : Char) : Bool := !(isSpace c || opens c || closes c || c = '"')

theorem plain (h : ∀ c ∈ s, isPlain c = true) : Spaced layout ⟨.outside, k⟩ s s ⟨.outside, k⟩ := by
  induction s with
  | nil => exact nil
  | cons c s ih =>
    obtain ⟨hc, hs⟩ := List.forall_mem_cons.1 h
    obtain ⟨⟨⟨hspace, hopens⟩, hcloses⟩, hquote⟩ : ((isSpace c = false ∧ opens c = false) ∧
        closes c = false) ∧ c ≠ '"' := by simpa [isPlain] using hc
    have hbreak : c ≠ '\n' := by
      rintro rfl
      cases hspace
    have hnext : (Cursor.mk .outside k).next c = ⟨.outside, k⟩ := by
      simp [next, hquote, hopens, hcloses]
    refine cons (fun _ => hspace) (.of_ne hbreak fun _ => hopens) ?_
    rw [hnext]
    exact ih hs

/-- A space or a line break that is laid out. -/
theorem skip (hc : isSpace c = true) (hlaid : Laid layout ⟨.outside, k⟩ c s)
    (h : Spaced layout ⟨.outside, k⟩ s t r') : Spaced layout ⟨.outside, k⟩ (c :: s) t r' := by
  have hnext : (Cursor.mk .outside k).next c = ⟨.outside, k⟩ := by
    rcases isSpace_iff.1 hc with rfl | rfl <;> rfl
  obtain ⟨rfl, rfl, hs⟩ := h
  refine ⟨?_, ?_, everywhere_cons hlaid (by rwa [hnext])⟩
  · show ((Cursor.mk .outside k).next c).after s = _
    rw [hnext]
  · rw [HdlInterface.unspaced, if_pos ⟨rfl, hc⟩, hnext]
    rfl

theorem spaces (n : Nat) (h : Spaced layout ⟨.outside, k⟩ s t r') :
    Spaced layout ⟨.outside, k⟩ (List.replicate n ' ' ++ s) t r' := by
  induction n with
  | zero => exact h
  | succ n ih => exact skip rfl (.of_ne (by decide) fun _ => rfl) ih

/-- A line of its level. -/
theorem line {n : Nat} (hn : n = (Cursor.mk .outside k).level c) (hc : isSpace c = false)
    (h : Spaced layout ⟨.outside, k⟩ (c :: s) t r') :
    Spaced layout ⟨.outside, k⟩ (layout.lineBreak n ++ c :: s) t r' := by
  cases layout with
  | compact => exact h
  | indented width =>
    refine skip rfl ⟨fun _ => ⟨rfl, c, s, by rw [← hn]; rfl, hc⟩, nofun⟩ (spaces _ h)

theorem close (hc : closes c = true) : Spaced layout ⟨.outside, k + 1⟩ [c] [c] ⟨.outside, k⟩ := by
  rcases closes_iff.1 hc with rfl | rfl
  · exact cons (fun _ => rfl) (.of_ne (by decide) fun _ => rfl) nil
  · exact cons (fun _ => rfl) (.of_ne (by decide) fun _ => rfl) nil

theorem colon : Spaced layout ⟨.outside, k⟩ layout.colon [':'] ⟨.outside, k⟩ := by
  have hcolon : ∀ c ∈ [':'], isPlain c = true := List.forall_mem_singleton.2 rfl
  cases layout with
  | compact => exact plain hcolon
  | indented width => exact (plain hcolon).append (skip rfl (.of_ne (by decide) fun _ => rfl) nil)

/-! ### Containers -/

theorem next_of_opens (hc : opens c = true) :
    (Cursor.mk .outside k).next c = ⟨.outside, k + 1⟩ := by
  rcases opens_iff.1 hc with rfl | rfl <;> rfl

theorem closes_partner (c : Char) : closes (partner c) = true := by
  unfold partner
  split_ifs <;> rfl

theorem isSpace_of_opens (hc : opens c = true) : isSpace c = false := by
  rcases opens_iff.1 hc with rfl | rfl <;> rfl

theorem isSpace_partner (c : Char) : isSpace (partner c) = false := by
  unfold partner
  split_ifs <;> rfl

/-- An opening bracket, and what is in order behind it. -/
theorem opening (hc : opens c = true) {d : Char} {tail : List Char}
    (hs : s = d :: tail ∧ d = partner c ∨
      s = layout.lineBreak (k + 1) ++ d :: tail ∧ isSpace d = false ∧ closes d = false)
    (h : Spaced layout ⟨.outside, k + 1⟩ s t r') :
    Spaced layout ⟨.outside, k⟩ (c :: s) (c :: t) r' := by
  have hbreak : c ≠ '\n' := by
    rintro rfl
    cases hc
  refine cons (fun _ => isSpace_of_opens hc) ⟨fun h => absurd h hbreak, fun _ _ => ⟨d, tail, hs⟩⟩ ?_
  rwa [next_of_opens hc]

theorem empty (hc : opens c = true) :
    Spaced layout ⟨.outside, k⟩ [c, partner c] [c, partner c] ⟨.outside, k⟩ :=
  opening hc (.inl ⟨rfl, rfl⟩) (close (closes_partner c))

theorem container (hc : opens c = true) {d : Char} {tail : List Char}
    (hs : s = layout.lineBreak (k + 1) ++ d :: tail) (hspace : isSpace d = false)
    (hcloses : closes d = false) (h : Spaced layout ⟨.outside, k + 1⟩ s t ⟨.outside, k + 1⟩) :
    Spaced layout ⟨.outside, k⟩ (c :: s ++ layout.lineBreak k ++ [partner c])
      (c :: t ++ [] ++ [partner c]) ⟨.outside, k⟩ := by
  have hlevel : k = (Cursor.mk .outside (k + 1)).level (partner c) := by
    simp [level, closes_partner]
  have hclose : Spaced layout ⟨.outside, k + 1⟩ (layout.lineBreak k ++ [partner c])
      [partner c] ⟨.outside, k⟩ :=
    line hlevel (isSpace_partner c) (close (closes_partner c))
  have hs' : s ++ (layout.lineBreak k ++ [partner c]) = layout.lineBreak (k + 1) ++
      d :: (tail ++ (layout.lineBreak k ++ [partner c])) := by
    rw [hs, List.append_assoc]
    rfl
  rw [List.append_nil, List.cons_append, List.cons_append, List.cons_append, List.append_assoc]
  exact opening hc (.inr ⟨hs', hspace, hcloses⟩) (h.append hclose)

/-! ### Strings -/

/-- A character that neither ends a string nor escapes the next. -/
theorem cons_inside (hc : c ≠ '"' ∧ c ≠ '\\' ∧ c ≠ '\n') (h : Spaced layout ⟨.inside, k⟩ s t r') :
    Spaced layout ⟨.inside, k⟩ (c :: s) (c :: t) r' := by
  obtain ⟨hquote, hslash, hbreak⟩ := hc
  have hnext : (Cursor.mk .inside k).next c = ⟨.inside, k⟩ := by simp [next, hquote, hslash]
  exact cons_quoted nofun hbreak (by rwa [hnext])

/-- A character behind a backslash. -/
theorem cons_escaped (hc : c ≠ '\n') (h : Spaced layout ⟨.inside, k⟩ s t r') :
    Spaced layout ⟨.inside, k⟩ ('\\' :: c :: s) ('\\' :: c :: t) r' :=
  cons_quoted nofun (by decide) (cons_quoted nofun hc h)

theorem escape (c : Char) (h : Spaced layout ⟨.inside, k⟩ s t r') :
    Spaced layout ⟨.inside, k⟩ (Quoted.escape c ++ s) (Quoted.escape c ++ t) r' := by
  have hdigits : ∀ n < 16, Nat.digitChar n ≠ '"' ∧ Nat.digitChar n ≠ '\\' ∧
      Nat.digitChar n ≠ '\n' := by decide
  have hhex : ∀ n, Quoted.hexDigit n ≠ '"' ∧ Quoted.hexDigit n ≠ '\\' ∧ Quoted.hexDigit n ≠ '\n' :=
    fun n => hdigits _ (Nat.mod_lt n (by decide))
  unfold Quoted.escape
  split_ifs with hquote hslash _ _ hbreak
  case pos | pos | pos | pos | pos | pos | pos => exact cons_escaped (by decide) h
  case pos =>
    have hunit := cons_inside (hhex (c.toNat / 16)) (cons_inside (hhex c.toNat) h)
    exact cons_escaped (by decide) (cons_inside (by decide) (cons_inside (by decide) hunit))
  case neg => exact cons_inside ⟨hquote, hslash, hbreak⟩ h

theorem quoted (s : List Char) :
    Spaced layout ⟨.outside, k⟩ (Quoted.write s) (Quoted.write s) ⟨.outside, k⟩ := by
  have hclose : Spaced layout ⟨.inside, k⟩ ['"'] ['"'] ⟨.outside, k⟩ :=
    cons_quoted nofun (by decide) nil
  have hrest : Spaced layout ⟨.inside, k⟩ (s.flatMap Quoted.escape ++ ['"'])
      (s.flatMap Quoted.escape ++ ['"']) ⟨.outside, k⟩ := by
    induction s with
    | nil => exact hclose
    | cons c s ih =>
      rw [List.flatMap_cons, List.append_assoc]
      exact escape c ih
  exact cons (fun _ => rfl) (.of_ne (by decide) fun _ => rfl) hrest

end Spaced

end HdlInterface
