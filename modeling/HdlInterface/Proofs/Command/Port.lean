import Mathlib.Data.List.Induction
import Mathlib.Data.Nat.Digits.Defs
import HdlInterface.Proofs.Command.Usage

/-!
# Ports from the command line

The port that the command line asks for is what is read from the document that is printed, whatever
the settings (`port_reads_back`). A default value is an integer where its text is the text of one
(`Expr.ofValueText_text`), and a name elsewhere (`Expr.ofValueText_eq_id`).
-/

namespace HdlInterface

/-! ## Texts of integers -/

/-- What stands in front of the digits. -/
inductive Sign
  | absent
  | plus
  | minus

namespace Sign

def chars : Sign → List Char
  | absent => []
  | plus => ['+']
  | minus => ['-']

def apply : Sign → Nat → Int
  | minus, n => -n
  | _, n => n

end Sign

/-- An integer in ASCII: a sign or none, and then digits, of which there is at least one. -/
structure IntegerText where
  sign : Sign
  digits : List (Fin 10)
  digits_ne_nil : digits ≠ []

namespace IntegerText

/-- A character for each digit. -/
def chars (digits : List (Fin 10)) : List Char :=
  digits.map fun d : Fin 10 => Nat.digitChar d

def text (x : IntegerText) : String := String.ofList (x.sign.chars ++ chars x.digits)

/-- The last digit counts ones. -/
def value (x : IntegerText) : Int :=
  x.sign.apply (Nat.ofDigits 10 (x.digits.reverse.map Fin.val))

/-- A signed word of 64 bits holds the integer. -/
def Fits (x : IntegerText) : Prop := -2 ^ 63 ≤ x.value ∧ x.value ≤ 2 ^ 63 - 1

instance (x : IntegerText) : Decidable x.Fits := inferInstanceAs (Decidable (_ ∧ _))

end IntegerText

/-! ## Digits -/

namespace IntegerText

theorem all_isDigit_chars (ds : List (Fin 10)) : (chars ds).all Char.isDigit = true := by
  simp [chars, Nat.isDigit_digitChar]

theorem exists_digitChar_of_isDigit {c : Char} (h : c.isDigit = true) :
    ∃ d : Fin 10, Nat.digitChar d = c := by
  have hfrom : ∀ d : Fin 10, Nat.digitChar d = Char.ofNat (48 + d) := by decide
  obtain ⟨hlow, hhigh⟩ : 48 ≤ c.toNat ∧ c.toNat ≤ 57 := by
    simpa [Char.isDigit, UInt32.le_iff_toNat_le] using h
  refine ⟨⟨c.toNat - 48, by omega⟩, ?_⟩
  rw [hfrom, Nat.add_sub_cancel' hlow, Char.ofNat_toNat]

theorem exists_chars_eq {cs : List Char} (h : ∀ c ∈ cs, c.isDigit = true) :
    ∃ ds, chars ds = cs := by
  induction cs with
  | nil => exact ⟨[], rfl⟩
  | cons c cs ih =>
    obtain ⟨hc, hcs⟩ := List.forall_mem_cons.1 h
    obtain ⟨d, rfl⟩ := exists_digitChar_of_isDigit hc
    obtain ⟨ds, rfl⟩ := ih hcs
    exact ⟨d :: ds, rfl⟩

theorem ofDigitChars_chars (ds : List (Fin 10)) :
    Nat.ofDigitChars 10 (chars ds) 0 = Nat.ofDigits 10 (ds.reverse.map Fin.val) := by
  -- from the end, where the digit stands that both ways of reading add alone
  induction ds using List.reverseRecOn with
  | nil => rfl
  | append_singleton ds d ih =>
    have hchars : chars (ds ++ [d]) = chars ds ++ [Nat.digitChar d] := List.map_append
    rw [hchars, Nat.ofDigitChars_append, ih, Nat.ofDigitChars_cons_digitChar_of_lt_ten d.isLt,
      List.reverse_concat, List.map_cons, Nat.ofDigits_cons, Nat.add_comm]
    rfl

theorem chars_eq_nil_iff {ds : List (Fin 10)} : chars ds = [] ↔ ds = [] := List.map_eq_nil_iff

theorem chars_injective : Function.Injective chars := by
  refine List.map_injective_iff.2 fun c d h => ?_
  have hdigits : ∀ c d : Fin 10, Nat.digitChar c = Nat.digitChar d → c = d := by decide
  exact hdigits c d h

end IntegerText

/-! ## Reading a default value -/

/-- The rest does not start with a sign that was overlooked. -/
def Sign.Precedes (s : Sign) (rest : List Char) : Prop :=
  s = absent → ∀ c ∈ rest.head?, c ≠ '+' ∧ c ≠ '-'

theorem Sign.exists_precedes (text : String) :
    ∃ (s : Sign) (rest : List Char), s.Precedes rest ∧ text = String.ofList (s.chars ++ rest) := by
  have hsplit : ∀ cs : List Char, ∃ (s : Sign) (rest : List Char),
      s.Precedes rest ∧ cs = s.chars ++ rest := by
    intro cs
    by_cases hminus : cs.head? = some '-'
    · obtain ⟨rest, rfl⟩ := List.head?_eq_some_iff.1 hminus
      exact ⟨minus, rest, nofun, rfl⟩
    by_cases hplus : cs.head? = some '+'
    · obtain ⟨rest, rfl⟩ := List.head?_eq_some_iff.1 hplus
      exact ⟨plus, rest, nofun, rfl⟩
    refine ⟨absent, cs, fun _ c hc => ⟨?_, ?_⟩, rfl⟩
    · rintro rfl
      exact hplus hc
    · rintro rfl
      exact hminus hc
  obtain ⟨s, rest, hprecedes, hchars⟩ := hsplit text.toList
  exact ⟨s, rest, hprecedes, by rw [← hchars, String.ofList_toList]⟩

/-- A sign can be told from what it precedes. -/
theorem Sign.chars_append_inj {s t : Sign} {rest rest' : List Char} (hs : s.Precedes rest)
    (ht : t.Precedes rest') (h : s.chars ++ rest = t.chars ++ rest') : s = t ∧ rest = rest' := by
  cases s <;> cases t <;> simp only [chars, List.nil_append, List.cons_append] at h
  case absent.absent => exact ⟨rfl, h⟩
  case plus.plus => exact ⟨rfl, List.tail_eq_of_cons_eq h⟩
  case minus.minus => exact ⟨rfl, List.tail_eq_of_cons_eq h⟩
  case plus.minus => cases h
  case minus.plus => cases h
  case absent.plus => exact absurd rfl (hs rfl '+' (by rw [h]; rfl)).1
  case absent.minus => exact absurd rfl (hs rfl '-' (by rw [h]; rfl)).2
  case plus.absent => exact absurd rfl (ht rfl '+' (by rw [← h]; rfl)).1
  case minus.absent => exact absurd rfl (ht rfl '-' (by rw [← h]; rfl)).2

/-- What is denoted by digits after a sign. -/
theorem int64OfText?_sign {s : Sign} {rest : List Char} (h : s.Precedes rest) :
    int64OfText? (String.ofList (s.chars ++ rest)) =
      if rest = [] ∨ ¬rest.all Char.isDigit then none
      else int64? (s.apply (Nat.ofDigitChars 10 rest 0)) := by
  unfold int64OfText?
  rw [String.toList_ofList]
  cases s with
  | plus => rfl
  | minus => rfl
  | absent =>
    simp only [Sign.chars, List.nil_append]
    split
    next rest => exact absurd rfl (h rfl '-' rfl).2
    next rest => exact absurd rfl (h rfl '+' rfl).1
    next => rfl

theorem IntegerText.precedes_chars (x : IntegerText) : x.sign.Precedes (chars x.digits) := by
  rintro - c hc
  obtain ⟨d, -, rfl⟩ := List.mem_map.1 (List.mem_of_mem_head? hc)
  have hdigits : ∀ d : Fin 10, Nat.digitChar d ≠ '+' ∧ Nat.digitChar d ≠ '-' := by decide
  exact hdigits d

/-- No text denotes two integers. -/
theorem IntegerText.text_injective : Function.Injective text := by
  rintro ⟨s, ds, hds⟩ ⟨t, es, hes⟩ h
  obtain ⟨rfl, hchars⟩ := Sign.chars_append_inj (precedes_chars ⟨s, ds, hds⟩)
    (precedes_chars ⟨t, es, hes⟩) (String.ofList_injective h)
  obtain rfl := chars_injective hchars
  rfl

open IntegerText in
/-- The words that a text denotes are those of the integers that are written so. -/
theorem int64OfText?_eq_some_iff {text : String} {n : Int64} :
    int64OfText? text = some n ↔ ∃ x : IntegerText, x.text = text ∧ x.value = n.toInt := by
  constructor
  · intro h
    obtain ⟨s, rest, hprecedes, rfl⟩ := Sign.exists_precedes text
    rw [int64OfText?_sign hprecedes] at h
    split at h
    next => cases h
    next hrest =>
      obtain ⟨hne, hall⟩ := not_or.1 hrest
      obtain ⟨ds, rfl⟩ := exists_chars_eq (List.all_eq_true.1 (not_not.1 hall))
      refine ⟨⟨s, ds, mt chars_eq_nil_iff.2 hne⟩, rfl, ?_⟩
      rw [int64?_eq_some_iff.1 h, ofDigitChars_chars]
      rfl
  · rintro ⟨x, rfl, hvalue⟩
    have hdigits : ¬(chars x.digits = [] ∨ ¬(chars x.digits).all Char.isDigit) :=
      not_or.2 ⟨mt chars_eq_nil_iff.1 x.digits_ne_nil, not_not.2 (all_isDigit_chars _)⟩
    rw [text, int64OfText?_sign x.precedes_chars, if_neg hdigits, int64?_eq_some_iff,
      ofDigitChars_chars]
    exact hvalue.symm

namespace Expr

theorem ofValueText_text {x : IntegerText} (h : x.Fits) :
    ∃ n : Int64, n.toInt = x.value ∧ ofValueText x.text = .int n := by
  have hvalue : (Int64.ofInt x.value).toInt = x.value :=
    Int64.toInt_ofInt_of_le h.1 (by have := h.2; omega)
  refine ⟨_, hvalue, ?_⟩
  rw [ofValueText, int64OfText?_eq_some_iff.2 ⟨x, rfl, hvalue.symm⟩]

theorem ofValueText_eq_id {text : String} (h : ∀ x : IntegerText, x.text = text → ¬x.Fits) :
    ofValueText text = .id text := by
  unfold ofValueText
  cases hn : int64OfText? text with
  | none => rfl
  | some n =>
    obtain ⟨x, hx, hvalue⟩ := int64OfText?_eq_some_iff.1 hn
    have lower := n.le_toInt
    have upper := n.toInt_lt
    exact absurd ⟨by rwa [hvalue], by rw [hvalue]; omega⟩ (h x hx)

end Expr

/-! ## The printed document -/

namespace Port

theorem exists_write_ofTexts (direction : Direction) (name type : String) (value : Option String) :
    ∃ m, (ofTexts direction name type value).write = .ok m :=
  exists_write_iff.2 ⟨rfl, rfl⟩

/-- A port from the command line is shallow. -/
theorem depth_ofTexts_le (direction : Direction) (name type : String) (value : Option String) :
    (ofTexts direction name type value).depth ≤ 4 := by
  have hid : ∀ text, (Expr.id text).depth = 2 := fun _ => rfl
  have hvalue : ∀ text, (Expr.ofValueText text).depth = 2 := fun text => by
    unfold Expr.ofValueText
    split <;> rfl
  cases value with
  | none => simp [ofTexts, of, depth, Variable.depth, hid]
  | some text => simp [ofTexts, of, depth, Variable.depth, hid, hvalue]

/-- A shallow port is found again in the text of its document. -/
theorem ofText?_toText_of_write {p : Port Variable} {m : Fields} (h : p.write = .ok m)
    (hdepth : p.depth ≤ Json.depthLimit) (layout : Layout) {blanks : String}
    (hblanks : ∀ c ∈ blanks.toList, JsonReader.isBlank c = true) :
    Json.ofText? (m.toText layout ++ blanks) = some (.object m) := by
  refine (Json.ofText?_toText layout ?_ ?_ hblanks).trans (if_pos ?_)
  · exact all_of_write Json.lenient_distinctKeys h
  · exact all_of_write Json.lenient_notDouble h
  · exact (depth_write_le p m h).trans hdepth

end Port

theorem port_run {files : Files} {config : Option String} {p : Port Variable} {m : Fields}
    {s : Settings} {events : List Event} (hm : p.write = .ok m)
    (hs : (loadSettings files config).run [] = (.ok s, events)) :
    (port files config p).run [] = (.ok (.print (m.toText s.layout ++ "\n")), events) := by
  rw [port, Run.run_bind_of_ok hs, hm]
  rfl

theorem Invocation.plan_port {g : Globals} {files : Files} {direction : Direction}
    {name type : String} {value : Option String} {m : Fields} {s : Settings} {events : List Event}
    (hm : (Port.ofTexts direction name type value).write = .ok m)
    (hs : (loadSettings files g.config).run [] = (.ok s, events)) :
    Invocation.plan ⟨g, .port direction name type value⟩ files =
      .finish ⟨0, m.toText s.layout ++ "\n", events⟩ := by
  show Plan.ofRun (port files g.config _) = _
  rw [Plan.ofRun, port_run hm hs]

/-- The command line can ask for every port, and whatever the settings, what is printed is the
document of that port in their layout. The default value is an integer where its text is that of an
integer of 64 bits, and elsewhere it is the name that stands there. -/
theorem port_reads_back (direction : Direction) (name type : String) (value : Option String) :
    (∀ g : Globals, Invocation.ofArguments
      (g.arguments ++ "port" :: Port.arguments direction name type value) =
        .ok ⟨g, .port direction name type value⟩) ∧
    (∃ m : Fields,
      Port.read m = .ok ⟨some direction,
        some ⟨name, .literal (.name [type]), value.map Expr.ofValueText⟩⟩ ∧
      (∀ layout, Json.ofText? (m.toText layout) = some (.object m) ∧
        Json.ofText? (m.toText layout ++ "\n") = some (.object m)) ∧
      ∀ (g : Globals) (files : Files) s events,
        (loadSettings files g.config).run [] = (.ok s, events) →
        let outcome : Outcome := ⟨0, m.toText s.layout ++ "\n", events⟩
        Invocation.plan ⟨g, .port direction name type value⟩ files = .finish outcome ∧
        ∀ t : FileTree, files = t.files →
          Invocation.run ⟨g, .port direction name type value⟩ t = (outcome, t)) ∧
    (∀ x : IntegerText, x.Fits → ∃ n : Int64, n.toInt = x.value ∧
      Expr.ofValueText x.text = .literal (.integer n none)) ∧
    ∀ text, (∀ x : IntegerText, x.text = text → ¬x.Fits) →
      Expr.ofValueText text = .literal (.name [text]) := by
  refine ⟨fun g => Invocation.ofArguments_port g direction name type value, ?_,
    fun x => Expr.ofValueText_text, fun text => Expr.ofValueText_eq_id⟩
  obtain ⟨m, hm⟩ := Port.exists_write_ofTexts direction name type value
  have hdepth : (Port.ofTexts direction name type value).depth ≤ Json.depthLimit :=
    (Port.depth_ofTexts_le direction name type value).trans (by decide)
  have hnone : ∀ c ∈ "".toList, JsonReader.isBlank c = true := nofun
  have hnewline : ∀ c ∈ "\n".toList, JsonReader.isBlank c = true := List.all_eq_true.1 rfl
  refine ⟨m, Port.read_of_write hm, fun layout => ⟨?_, ?_⟩, fun g files s events hs => ⟨?_, ?_⟩⟩
  · simpa using Port.ofText?_toText_of_write hm hdepth layout hnone
  · exact Port.ofText?_toText_of_write hm hdepth layout hnewline
  · exact Invocation.plan_port hm hs
  · rintro t rfl
    rw [Invocation.run_eq_carryOut, Invocation.plan_port hm hs]
    rfl

/-- The digits of 2 ^ 63 after two zeros. -/
def IntegerText.pastGreatest (sign : Sign) : IntegerText :=
  ⟨sign, [0, 0, 9, 2, 2, 3, 3, 7, 2, 0, 3, 6, 8, 5, 4, 7, 7, 5, 8, 0, 8], nofun⟩

/-- A text that is just within bounds, and the same digits after the other sign. -/
theorem bare_port_reads_back :
    let least := "-009223372036854775808"
    let beyond := "+009223372036854775808"
    ∃ m, Port.read m = .ok ⟨some .input,
        some ⟨"n", .literal (.name ["natural"]), some (.literal (.integer Int64.minValue none))⟩⟩ ∧
      (∃ printed, Invocation.run ⟨⟨true, false, none⟩, .port .input "n" "natural" (some least)⟩
          .bare = (⟨0, printed, []⟩, .bare) ∧ Json.ofText? printed = some (.object m)) ∧
      Expr.ofValueText beyond = .literal (.name [beyond]) := by
  intro least beyond
  obtain ⟨-, ⟨m, hread, htext, hrun⟩, hint, hname⟩ :=
    port_reads_back .input "n" "natural" (some least)
  obtain ⟨n, hn, hvalue⟩ := hint (.pastGreatest .minus) (by decide)
  obtain rfl : n = Int64.minValue := Int64.toInt_inj.1 (hn.trans (by decide))
  have hleast : (IntegerText.pastGreatest .minus).text = least := by decide
  have hbeyond : (IntegerText.pastGreatest .plus).text = beyond := by decide
  rw [hleast] at hvalue
  rw [Option.map_some, hvalue] at hread
  have hbare := (hrun ⟨true, false, none⟩ FileTree.bare.files {} [] rfl).2 .bare rfl
  refine ⟨m, hread, ⟨_, hbare, (htext _).2⟩, hname beyond fun x hx => ?_⟩
  rw [IntegerText.text_injective (hx.trans hbeyond.symm)]
  decide

end HdlInterface
