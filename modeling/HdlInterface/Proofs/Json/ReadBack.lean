import HdlInterface.Json.Reader
import HdlInterface.Json.Writer
import HdlInterface.Proofs.Json.Numeral
import HdlInterface.Proofs.Json.Parts
import HdlInterface.Proofs.Json.Quoted
import HdlInterface.Proofs.Text.Ascii

/-!
# Written values read back

A value whose objects repeat no key and whose numbers are integers reads back from its text, in
every layout and in front of every text that does not go on with a numeral, as long as its nesting
stays within the depth that is left; any deeper value is refused (`readValue_write`). As the whole
of a text the depth is `Json.depthLimit` (`ofChars?_write`).
-/

namespace HdlInterface

open JsonReader

namespace JsonReader

/-! ## Blanks -/

theorem skipBlanks_cons {c : Char} (h : isBlank c = false) (s : List Char) :
    skipBlanks (c :: s) = c :: s := by
  simp [skipBlanks, h]

theorem skipBlanks_append {blanks : List Char} (h : ∀ c ∈ blanks, isBlank c = true)
    (s : List Char) : skipBlanks (blanks ++ s) = skipBlanks s :=
  List.dropWhile_append_of_pos h

theorem skipBlanks_skipBlanks (s : List Char) : skipBlanks (skipBlanks s) = skipBlanks s := by
  induction s with
  | nil => rfl
  | cons c s ih =>
      cases h : isBlank c with
      | true => simpa [skipBlanks, h] using ih
      | false => rw [skipBlanks_cons h, skipBlanks_cons h]

theorem isBlank_of_mem_lineBreak {layout : Layout} {level : Nat} {c : Char}
    (h : c ∈ layout.lineBreak level) : isBlank c = true := by
  cases layout with
  | compact => cases h
  | indented width =>
      rcases List.mem_cons.1 h with rfl | h
      · rfl
      · rw [(List.mem_replicate.1 h).2]
        rfl

theorem skipBlanks_lineBreak (layout : Layout) (level : Nat) (s : List Char) :
    skipBlanks (layout.lineBreak level ++ s) = skipBlanks s :=
  skipBlanks_append (fun _ => isBlank_of_mem_lineBreak) s

theorem readValue_congr {s t : List Char} (h : skipBlanks s = skipBlanks t) (fuel depth : Nat) :
    readValue fuel depth s = readValue fuel depth t := by
  cases fuel with
  | zero => rfl
  | succ fuel => rw [readValue, readValue, h]

theorem readItems_congr {s t : List Char} (h : skipBlanks s = skipBlanks t) (fuel depth : Nat) :
    readItems fuel depth s = readItems fuel depth t := by
  cases fuel with
  | zero => rfl
  | succ fuel => rw [readItems, readItems, readValue_congr h]

theorem readKey_congr {s t : List Char} (h : skipBlanks s = skipBlanks t) :
    readKey s = readKey t := by
  rw [readKey, readKey, h]

theorem readEntries_congr {s t : List Char} (h : skipBlanks s = skipBlanks t) (fuel depth : Nat) :
    readEntries fuel depth s = readEntries fuel depth t := by
  cases fuel with
  | zero => rfl
  | succ fuel => rw [readEntries, readEntries, readKey_congr h]

/-! ## Tokens -/

/-- A text that begins with a digit or a minus sign is read as a number. -/
theorem readValue_number {c : Char} (hc : c.isDigit = true ∨ c = '-') (fuel depth : Nat)
    (s : List Char) :
    readValue (fuel + 1) depth (c :: s) =
      (Number.read (c :: s)).map fun r => (.number r.1, r.2) := by
  have hne : isBlank c = false ∧ c ≠ 'n' ∧ c ≠ 't' ∧ c ≠ 'f' ∧ c ≠ '"' ∧ c ≠ '[' ∧ c ≠ '{' := by
    rcases hc with hc | rfl
    · refine ⟨?_, ?_, ?_, ?_, ?_, ?_, ?_⟩
      · cases hb : isBlank c with
        | false => rfl
        | true =>
            simp only [isBlank, Bool.or_eq_true, decide_eq_true_eq] at hb
            rcases hb with ((rfl | rfl) | rfl) | rfl <;> cases hc
      all_goals
        rintro rfl
        cases hc
    · decide
  obtain ⟨hblank, hn, ht, hf, hquote, hopen, hbrace⟩ := hne
  rw [readValue, skipBlanks_cons hblank]
  split
  all_goals first
    | rfl
    | simp_all

theorem readValue_string (s rest : List Char) (fuel depth : Nat) :
    readValue (fuel + 1) depth (Quoted.write s ++ rest) =
      some (.string (String.ofList s), rest) := by
  rw [Quoted.write_append, readValue, skipBlanks_cons rfl]
  simp [Quoted.read_escaped]

theorem readKey_write (layout : Layout) (key : String) (rest : List Char) :
    readKey (Quoted.write key.toList ++ (layout.colon ++ rest)) =
      some (key, layout.colon.tail ++ rest) := by
  rw [Quoted.write_append, readKey, skipBlanks_cons rfl]
  cases layout with
  | compact => simp [Quoted.read_escaped, Layout.colon, skipBlanks_cons (rfl : isBlank ':' = false)]
  | indented width =>
      simp [Quoted.read_escaped, Layout.colon, skipBlanks_cons (rfl : isBlank ':' = false)]

theorem skipBlanks_colon_tail (layout : Layout) (s : List Char) :
    skipBlanks (layout.colon.tail ++ s) = skipBlanks s := by
  cases layout with
  | compact => rfl
  | indented width => rfl

/-! ## Containers -/

theorem readValue_bracket {c : Char} {s t : List Char} (hs : skipBlanks s = c :: t) (hc : c ≠ ']')
    (fuel depth : Nat) :
    readValue (fuel + 1) depth ('[' :: s) =
      if depth = 0 then none
      else (readItems fuel (depth - 1) s).map fun r => (.array r.1, r.2) := by
  rw [readValue, skipBlanks_cons rfl]
  simp only [hs]
  split_ifs with hdepth
  · rfl
  · have hitems : readItems fuel (depth - 1) (c :: t) = readItems fuel (depth - 1) s := by
      apply readItems_congr
      rw [← hs, skipBlanks_skipBlanks]
    split
    · next heq => exact absurd (List.cons.inj heq).1 hc
    · rw [hitems]

theorem readValue_brace {c : Char} {s t : List Char} (hs : skipBlanks s = c :: t) (hc : c ≠ '}')
    (fuel depth : Nat) :
    readValue (fuel + 2) depth ('{' :: s) =
      if depth = 0 then none
      else (readEntries fuel (depth - 1) s).map fun r =>
        (.object (Fields.assignAll [] r.1), r.2) := by
  rw [readValue, skipBlanks_cons rfl]
  simp only [readObject, hs]
  split_ifs with hdepth
  · rfl
  · have hentries : readEntries fuel (depth - 1) (c :: t) = readEntries fuel (depth - 1) s := by
      apply readEntries_congr
      rw [← hs, skipBlanks_skipBlanks]
    split
    · next heq => exact absurd (List.cons.inj heq).1 hc
    · rw [hentries]

end JsonReader

/-! ## The first character of a value -/

namespace Json

/-- A character that may begin a value. -/
def Begins (c : Char) : Prop := isBlank c = false ∧ c ≠ ']' ∧ c ≠ '}'

instance (c : Char) : Decidable (Begins c) := inferInstanceAs (Decidable (_ ∧ _))

theorem begins_of_isDigit {c : Char} (h : c.isDigit = true) : Begins c :=
  of_isDigit (p := Begins) (by decide) h

theorem exists_writeInt_eq_cons (n : Int) :
    ∃ c s, writeInt n = c :: s ∧ (c.isDigit = true ∨ c = '-') := by
  unfold writeInt
  split_ifs with hneg
  · exact ⟨'-', _, rfl, .inr rfl⟩
  · obtain ⟨c, s, hcons⟩ :=
      List.exists_cons_of_ne_nil (Nat.toDigits_ne_nil (b := 10) (n := n.natAbs))
    have hc : c.isDigit = true :=
      Nat.isDigit_of_mem_toDigits (by decide) (by decide) (hcons ▸ List.mem_cons_self)
    exact ⟨c, s, hcons, .inl hc⟩

theorem exists_write_eq_cons (layout : Layout) (level : Nat) {v : Json} (hv : v.Integral) :
    ∃ c s, v.write layout level = c :: s ∧ Begins c := by
  cases v with
  | null => exact ⟨'n', _, rfl, by decide⟩
  | bool b => cases b with
    | true => exact ⟨'t', _, rfl, by decide⟩
    | false => exact ⟨'f', _, rfl, by decide⟩
  | number n => cases n with
    | integer n =>
        obtain ⟨c, s, hcons, hc⟩ := exists_writeInt_eq_cons n.value
        refine ⟨c, s, hcons, ?_⟩
        rcases hc with hc | rfl
        · exact begins_of_isDigit hc
        · decide
    | double x => cases hv
  | string s => exact ⟨'"', _, rfl, by decide⟩
  | array items =>
      rw [write]
      split_ifs
      · exact ⟨'[', _, rfl, by decide⟩
      · exact ⟨'[', _, rfl, by decide⟩
  | object fields =>
      rw [write]
      split_ifs
      · exact ⟨'{', _, rfl, by decide⟩
      · exact ⟨'{', _, rfl, by decide⟩

/-! ## What follows a value -/

theorem stops_lineBreak (layout : Layout) (level : Nat) {c : Char}
    (hc : c.isDigit = false ∧ c ≠ '.' ∧ c ≠ 'e' ∧ c ≠ 'E') (rest : List Char) :
    Numeral.Stops (layout.lineBreak level ++ c :: rest) := by
  cases layout with
  | compact => exact Numeral.stops_cons hc
  | indented width => exact Numeral.stops_cons (by decide)

theorem stops_writeItems (layout : Layout) (level level' : Nat) (items : List Json)
    (rest : List Char) :
    Numeral.Stops (writeItems layout level false items ++
      (layout.lineBreak level' ++ ']' :: rest)) := by
  cases items with
  | nil => exact stops_lineBreak layout level' (by decide) rest
  | cons v items => exact Numeral.stops_cons (by decide)

theorem stops_writeFields (layout : Layout) (level level' : Nat) (m : Fields) (rest : List Char) :
    Numeral.Stops (writeFields layout level false m ++
      (layout.lineBreak level' ++ '}' :: rest)) := by
  cases m with
  | nil => exact stops_lineBreak layout level' (by decide) rest
  | cons f m => exact Numeral.stops_cons (by decide)

/-! ## Values -/

theorem length_write_pos (layout : Layout) (level : Nat) {v : Json} (hv : v.Integral) :
    0 < (v.write layout level).length := by
  obtain ⟨c, s, hcons, -⟩ := exists_write_eq_cons layout level hv
  rw [hcons]
  exact Nat.succ_pos _

theorem writeItems_cons (layout : Layout) (level : Nat) (v : Json) (items : List Json) :
    writeItems layout level true (v :: items) =
      layout.lineBreak level ++ (v.write layout level ++ writeItems layout level false items) := by
  simp [writeItems]

theorem writeItems_comma (layout : Layout) (level : Nat) (v : Json) (items : List Json) :
    writeItems layout level false (v :: items) =
      ',' :: writeItems layout level true (v :: items) := rfl

theorem writeFields_cons (layout : Layout) (level : Nat) (f : String × Json) (m : Fields) :
    writeFields layout level true (f :: m) =
      layout.lineBreak level ++ (Quoted.write f.1.toList ++ (layout.colon ++
        (f.2.write layout level ++ writeFields layout level false m))) := by
  simp [writeFields]

theorem writeFields_comma (layout : Layout) (level : Nat) (f : String × Json) (m : Fields) :
    writeFields layout level false (f :: m) =
      ',' :: writeFields layout level true (f :: m) := rfl

theorem exists_skipBlanks_writeItems (layout : Layout) (level : Nat) {v : Json} (hv : v.Integral)
    (items : List Json) (s : List Char) :
    ∃ c t, skipBlanks (writeItems layout level true (v :: items) ++ s) = c :: t ∧ c ≠ ']' := by
  obtain ⟨c, t, hcons, hc⟩ := exists_write_eq_cons layout level hv
  rw [writeItems_cons, List.append_assoc, skipBlanks_lineBreak, hcons]
  exact ⟨c, _, skipBlanks_cons hc.1 _, hc.2.1⟩

theorem exists_skipBlanks_writeFields (layout : Layout) (level : Nat) (f : String × Json)
    (m : Fields) (s : List Char) :
    ∃ c t, skipBlanks (writeFields layout level true (f :: m) ++ s) = c :: t ∧ c ≠ '}' := by
  rw [writeFields_cons, List.append_assoc, skipBlanks_lineBreak]
  exact ⟨'"', _, skipBlanks_cons rfl _, by decide⟩

mutual

/-- The text of a value reads back if its nesting fits the room that is left, and is refused
otherwise. Each container takes two characters and two steps of fuel. -/
theorem readValue_write (layout : Layout) : (v : Json) → v.WellFormed → v.Integral →
    ∀ (level fuel room : Nat) (rest : List Char), Numeral.Stops rest →
      2 * (v.write layout level).length ≤ fuel →
      readValue fuel room (v.write layout level ++ rest) =
        if v.depth ≤ room then some (v, rest) else none
  | v, hv, hn, level, fuel, room, rest, hrest, hfuel => by
      have hlength := length_write_pos layout level hn
      obtain ⟨f, rfl⟩ : ∃ f, fuel = f + 2 := ⟨fuel - 2, by omega⟩
      match v, hv, hn, hfuel with
      | null, _, _, _ => simp [write, readValue, skipBlanks_cons, isBlank, depth]
      | bool true, _, _, _ => simp [write, readValue, skipBlanks_cons, isBlank, depth]
      | bool false, _, _, _ => simp [write, readValue, skipBlanks_cons, isBlank, depth]
      | number (.integer n), _, _, _ =>
          obtain ⟨c, s, hcons, hc⟩ := exists_writeInt_eq_cons n.value
          have hread := Number.read_writeInt n hrest
          rw [write, Number.write]
          rw [hcons, List.cons_append] at hread ⊢
          rw [readValue_number hc, hread]
          simp [depth]
      | string s, _, _, _ =>
          rw [write, readValue_string, String.ofList_toList]
          simp [depth]
      | array [], _, _, _ =>
          cases room <;>
            simp [write, readValue, skipBlanks_cons, isBlank, depth, itemsDepth]
      | array (v :: items), hv, hn, hfuel =>
          obtain ⟨-, hv⟩ := all_array.1 hv
          obtain ⟨-, hn⟩ := all_array.1 hn
          obtain ⟨c, t, hs, hc⟩ := exists_skipBlanks_writeItems layout (level + 1)
            (hn v List.mem_cons_self) items (layout.lineBreak level ++ ']' :: rest)
          have htext : (array (v :: items)).write layout level ++ rest =
              '[' :: (writeItems layout (level + 1) true (v :: items) ++
                (layout.lineBreak level ++ ']' :: rest)) := by
            simp [write]
          have hitems :
              2 * (writeItems layout (level + 1) true (v :: items)).length + 1 ≤ f + 1 := by
            simp only [write, List.isEmpty_cons, Bool.false_eq_true, if_false, List.length_append,
              List.length_cons] at hfuel
            omega
          rw [htext, readValue_bracket hs hc,
            readItems_write layout (v :: items) (by simp) hv hn _ _ _ _ _ hitems]
          cases room <;> simp [depth, Nat.add_comm 1]
      | object [], _, _, _ =>
          cases room <;>
            simp [write, readValue, readObject, skipBlanks_cons, isBlank, depth, fieldsDepth,
              Fields.assignAll]
      | object (g :: m), hv, hn, hfuel =>
          have hkeys := hv.nodup_keys
          obtain ⟨-, hv⟩ := all_object.1 hv
          obtain ⟨-, hn⟩ := all_object.1 hn
          obtain ⟨c, t, hs, hc⟩ := exists_skipBlanks_writeFields layout (level + 1) g m
            (layout.lineBreak level ++ '}' :: rest)
          have htext : (object (g :: m)).write layout level ++ rest =
              '{' :: (writeFields layout (level + 1) true (g :: m) ++
                (layout.lineBreak level ++ '}' :: rest)) := by
            simp [write]
          have hfields : 2 * (writeFields layout (level + 1) true (g :: m)).length + 1 ≤ f := by
            simp only [write, List.isEmpty_cons, Bool.false_eq_true, if_false, List.length_append,
              List.length_cons] at hfuel
            omega
          rw [htext, readValue_brace hs hc,
            readEntries_write layout (g :: m) (by simp) hv hn _ _ _ _ _ hfields]
          cases room <;>
            simp [depth, Nat.add_comm 1, apply_ite, Fields.assignAll_nil_of_nodup hkeys]

theorem readItems_write (layout : Layout) : (items : List Json) → items ≠ [] →
    (∀ v ∈ items, v.WellFormed) → (∀ v ∈ items, v.Integral) →
    ∀ (level outer fuel room : Nat) (rest : List Char),
      2 * (writeItems layout level true items).length + 1 ≤ fuel →
      readItems fuel room
          (writeItems layout level true items ++ (layout.lineBreak outer ++ ']' :: rest)) =
        if itemsDepth items ≤ room then some (items, rest) else none
  | v :: items, _, hv, hn, level, outer, fuel, room, rest, hfuel => by
      obtain ⟨f, rfl⟩ : ∃ f, fuel = f + 1 := ⟨fuel - 1, by omega⟩
      rw [writeItems_cons, List.length_append, List.length_append] at hfuel
      have hread := readValue_write layout v (hv v List.mem_cons_self) (hn v List.mem_cons_self)
        level f room _ (stops_writeItems layout level outer items rest) (by omega)
      rw [writeItems_cons, List.append_assoc, List.append_assoc, readItems,
        readValue_congr (skipBlanks_lineBreak layout level _), hread]
      by_cases hroom : v.depth ≤ room
      · rw [if_pos hroom]
        match items, hv, hn, hfuel with
        | [], _, _, _ =>
            rw [writeItems, List.nil_append]
            simp only [skipBlanks_lineBreak, skipBlanks_cons (rfl : isBlank ']' = false)]
            simp [itemsDepth, hroom]
        | w :: items, hv, hn, hfuel =>
            rw [writeItems_comma, List.length_cons] at hfuel
            have hmore := readItems_write layout (w :: items) (by simp)
              (fun u hu => hv u (List.mem_cons_of_mem _ hu))
              (fun u hu => hn u (List.mem_cons_of_mem _ hu)) level outer f room rest (by omega)
            rw [writeItems_comma, List.cons_append]
            simp only [skipBlanks_cons (rfl : isBlank ',' = false)]
            rw [hmore]
            simp only [itemsDepth_cons_le_iff (v := v), hroom, true_and]
            split_ifs <;> rfl
      · simp [itemsDepth_cons_le_iff, hroom]

theorem readEntries_write (layout : Layout) : (m : Fields) → m ≠ [] →
    (∀ f ∈ m, f.2.WellFormed) → (∀ f ∈ m, f.2.Integral) →
    ∀ (level outer fuel room : Nat) (rest : List Char),
      2 * (writeFields layout level true m).length + 1 ≤ fuel →
      readEntries fuel room
          (writeFields layout level true m ++ (layout.lineBreak outer ++ '}' :: rest)) =
        if fieldsDepth m ≤ room then some (m, rest) else none
  | g :: m, _, hv, hn, level, outer, fuel, room, rest, hfuel => by
      obtain ⟨f, rfl⟩ : ∃ f, fuel = f + 1 := ⟨fuel - 1, by omega⟩
      rw [writeFields_cons, List.length_append, List.length_append, List.length_append,
        List.length_append] at hfuel
      have hread := readValue_write layout g.2 (hv g List.mem_cons_self) (hn g List.mem_cons_self)
        level f room _ (stops_writeFields layout level outer m rest) (by omega)
      have hkey : readKey (layout.lineBreak level ++ (Quoted.write g.1.toList ++ (layout.colon ++
            (g.2.write layout level ++ (writeFields layout level false m ++
              (layout.lineBreak outer ++ '}' :: rest)))))) =
          some (g.1, layout.colon.tail ++ (g.2.write layout level ++
            (writeFields layout level false m ++ (layout.lineBreak outer ++ '}' :: rest)))) := by
        rw [readKey_congr (skipBlanks_lineBreak layout level _), readKey_write]
      rw [writeFields_cons, List.append_assoc, List.append_assoc, List.append_assoc,
        List.append_assoc, readEntries, hkey]
      simp only [readValue_congr (skipBlanks_colon_tail layout _), hread]
      by_cases hroom : g.2.depth ≤ room
      · rw [if_pos hroom]
        match m, hv, hn, hfuel with
        | [], _, _, _ =>
            rw [writeFields, List.nil_append]
            simp only [skipBlanks_lineBreak, skipBlanks_cons (rfl : isBlank '}' = false)]
            simp [fieldsDepth, hroom]
        | h :: m, hv, hn, hfuel =>
            rw [writeFields_comma, List.length_cons] at hfuel
            have hmore := readEntries_write layout (h :: m) (by simp)
              (fun u hu => hv u (List.mem_cons_of_mem _ hu))
              (fun u hu => hn u (List.mem_cons_of_mem _ hu)) level outer f room rest (by omega)
            rw [writeFields_comma, List.cons_append]
            simp only [skipBlanks_cons (rfl : isBlank ',' = false)]
            rw [hmore]
            simp only [fieldsDepth_cons_le_iff (f := g), hroom, true_and]
            split_ifs <;> rfl
      · simp [fieldsDepth_cons_le_iff, hroom]

end

/-! ## Whole texts -/

/-- A written value is the whole of its text, blanks after it aside, exactly up to the depth
limit. -/
theorem ofChars?_write (layout : Layout) {v : Json} (hv : v.WellFormed) (hn : v.Integral)
    {blanks : List Char} (hblanks : ∀ c ∈ blanks, isBlank c = true) :
    ofChars? (v.write layout 0 ++ blanks) = if v.depth ≤ depthLimit then some v else none := by
  have hstops : Numeral.Stops blanks := by
    cases blanks with
    | nil => exact Numeral.stops_nil
    | cons c blanks =>
        have hc := hblanks c List.mem_cons_self
        simp only [isBlank, Bool.or_eq_true, decide_eq_true_eq] at hc
        rcases hc with ((rfl | rfl) | rfl) | rfl <;> exact Numeral.stops_cons (by decide)
  have hend : skipBlanks blanks = [] := by
    rw [← List.append_nil blanks]
    exact skipBlanks_append hblanks []
  have hfuel : 2 * (v.write layout 0).length ≤ fuelFor (v.write layout 0 ++ blanks) := by
    rw [fuelFor, List.length_append]
    omega
  rw [ofChars?, readValue_write layout v hv hn 0 _ depthLimit blanks hstops hfuel]
  split_ifs
  · simp [complete, hend]
  · rfl

theorem ofText?_toText (layout : Layout) {v : Json} (hv : v.WellFormed) (hn : v.Integral)
    {blanks : String} (hblanks : ∀ c ∈ blanks.toList, isBlank c = true) :
    ofText? (v.toText layout ++ blanks) = if v.depth ≤ depthLimit then some v else none := by
  rw [ofText?, toText, String.toList_append, String.toList_ofList]
  exact ofChars?_write layout hv hn hblanks

end Json

end HdlInterface
